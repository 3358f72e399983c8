import Reckoner.Proofs.Ordering
import Reckoner.Proofs.WellFormed
/-!
# What a loaded context holds

A line can define any name, and loading enters a line for every function of a document. What comes
of a line is compared with its entry, and this is enough: a loaded context has the functions of its
document and no others, with their parameters and their texts, and no constant but those of the
document. A constant is lost only if the document has a function of its name, which then takes its
place. The bodies are checked one after the other, and nothing else is ever taken out, so in the end
every name of a body is defined, except for such constants.
-/

namespace Reckoner

/-- The value describes the number: an object has its type and its parts. Of a real number the
imaginary part is listed, but it does not count. -/
def Json.DescribesNumber (value : Json) (number : Number) : Prop :=
  ∃ members re im, value = .object members ∧ members.lookup "re" = some (.number re) ∧
    members.lookup "im" = some (.number im) ∧
    (members.lookup "type" = some (.string "Real") ∧ number = .real re ∨
      members.lookup "type" = some (.string "Complex") ∧ number = .complex ⟨re, im⟩)

/-- The value describes a function by the text of its definition and its parameters. -/
def Json.DescribesFunction (value : Json) (definition : String) (parameters : List String) : Prop :=
  ∃ members, value = .object members ∧
    members.lookup "definition" = some (.string definition) ∧
    members.lookup "args" = some (.array (parameters.map .string))

/-- The value gives the function its parameters and its text, which is kept without margins. -/
def Json.Gives (value : Json) (function : UserFunction) : Prop :=
  ∃ definition, value.DescribesFunction definition function.parameters ∧
    function.definition = trimMargins definition

/-- The document lists constants and functions with their descriptions. -/
def Json.Lists (document : Json) (constants functions : List (String × Json)) : Prop :=
  ∃ members, document = .object members ∧
    members.lookup "constants" = some (.object constants) ∧
    members.lookup "functions" = some (.object functions)

namespace Context

/-- The context holds exactly the listed functions, and no constants but the listed ones. -/
structure Mirrors (context : Context) (constants functions : List (String × Json)) : Prop where
  /-- Every listed function is one of the context. -/
  allFunctions : ∀ name value, (name, value) ∈ functions →
    ∃ function, context.functions.find? name = some function ∧ value.Gives function
  /-- Every function of the context is listed. -/
  onlyFunctions : ∀ name function, context.functions.find? name = some function →
    ∃ value, (name, value) ∈ functions ∧ value.Gives function
  /-- Every constant of the context is listed. -/
  onlyConstants : ∀ name number, context.constants.find? name = some number →
    ∃ value, (name, value) ∈ constants ∧ value.DescribesNumber number

/-- The symbol of a node in a body with some parameters is there: a constant is a parameter, built
in or one of the user, and a called function takes that many arguments. -/
def HasSymbol (context : Context) (parameters : List String) : Expr → Prop
  | .constant _ name _ => name ∈ parameters ∨ (builtInConstant? name).isSome = true ∨
      context.constants.contains name = true
  | .call .builtIn name _ arguments =>
    (BuiltIn.ofName? name).map BuiltIn.arity = some arguments.length
  | .call .user name _ arguments =>
    (context.functions.find? name).map (·.parameters.length) = some arguments.length
  | .call .unknown _ _ _ => False
  | .number .. | .signed .. | .binary .. | .value _ => True

instance (context : Context) (parameters : List String) :
    DecidablePred (context.HasSymbol parameters)
  | .constant .. => inferInstanceAs (Decidable (_ ∨ _ ∨ _))
  | .call .builtIn .. | .call .user .. => inferInstanceAs (Decidable (_ = _))
  | .call .unknown .. => inferInstanceAs (Decidable False)
  | .number .. | .signed .. | .binary .. | .value _ => inferInstanceAs (Decidable True)

/-- In a body with canonical origins whose names are resolved, every symbol is there. -/
theorem Resolved.hasSymbol {context : Context} {parameters : List String} {body : Expr}
    (resolved : context.Resolved parameters body) (canonical : body.IsCanonical parameters) :
    ∀ node ∈ body.nodes, context.HasSymbol parameters node := by
  let property (node : Expr) : Prop :=
    context.Resolved parameters node ∧ node.IsCanonical parameters
  have each : ∀ node ∈ body.nodes, property node := by
    refine Expr.of_mem_nodes ?_ ?_ ?_ ⟨resolved, canonical⟩
    · rintro origin name position arguments ⟨resolved, canonical⟩ argument member
      rw [resolved_call_iff] at resolved
      rw [Expr.isCanonical_call_iff] at canonical
      exact ⟨resolved.2 argument member, canonical.2 argument member⟩
    · rintro sign position operand ⟨resolved, canonical⟩
      rw [resolved_signed_iff] at resolved
      rw [Expr.isCanonical_signed_iff] at canonical
      exact ⟨resolved, canonical⟩
    · rintro operator position left right ⟨resolved, canonical⟩
      rw [resolved_binary_iff] at resolved
      rw [Expr.isCanonical_binary_iff] at canonical
      exact ⟨⟨resolved.2.1, canonical.1⟩, resolved.2.2, canonical.2⟩
  intro node member
  obtain ⟨resolved, canonical⟩ := each node member
  cases node with
  | number | signed | binary | value => trivial
  | constant origin name position =>
    rw [resolved_constant_iff, constant?, Option.isSome_or, Bool.or_eq_true] at resolved
    exact resolved
  | call origin name position arguments =>
    rw [resolved_call_iff, arity?] at resolved
    obtain ⟨rfl, _⟩ := (Expr.isCanonical_call_iff ..).mp canonical
    cases builtIn : BuiltIn.ofName? name with
    | some function =>
      rw [builtIn] at resolved
      rw [Option.isSome_some, if_pos rfl, HasSymbol, builtIn]
      exact resolved.1
    | none =>
      rw [builtIn] at resolved
      exact resolved.1

/-- The context has the listed constants and all symbols of its bodies, except for constants whose
name is also that of a listed function. -/
structure Completes (context : Context) (constants functions : List (String × Json)) : Prop where
  /-- A constant is one of the context unless a function of its name is listed. -/
  allConstants : ∀ name value, (name, value) ∈ constants → name ∉ functions.map Prod.fst →
    ∃ number, context.constants.find? name = some number ∧ value.DescribesNumber number
  /-- The symbol of every node of a body is there, or it is a constant of such a name. -/
  symbols : ∀ name function, context.functions.find? name = some function →
    ∀ node ∈ function.body.nodes, context.HasSymbol function.parameters node ∨
      ∃ origin lost position, node = .constant origin lost position ∧
        lost ∈ constants.map Prod.fst ∧ lost ∈ functions.map Prod.fst

end Context

namespace Document

/-- A value has members exactly if it is an object. -/
theorem objectOf_eq_ok_iff (name : String) (value : Json) (members : List (String × Json)) :
    objectOf name value = .ok members ↔ value = .object members := by
  constructor
  · exact eq_object_of_objectOf
  · rintro rfl
    rfl

/-- A member is found exactly if it is listed first under its name. -/
theorem member_eq_ok_iff (owner : Option String) (members : List (String × Json)) (name : String)
    (value : Json) : member owner members name = .ok value ↔ members.lookup name = some value := by
  constructor
  · exact lookup_of_member
  · intro found
    simp only [member, found]

/-- A value is taken exactly if it has the type. -/
theorem typed_eq_ok_iff {α : Type} (name expected : String) (found : Option α) (value : α) :
    typed name expected found = .ok value ↔ found = some value := by
  cases found with
  | none => simp [typed]
  | some other => simp [typed]

/-- A value has a text exactly if it is a string. -/
theorem text?_eq_some_iff (value : Json) (text : String) :
    value.text? = some text ↔ value = .string text := by
  cases value <;> simp [Json.text?]

/-- A value is that of a number exactly if it is a number. -/
theorem number?_eq_some_iff (value : Json) (number : Binary64) :
    value.number? = some number ↔ value = .number number := by
  cases value <;> simp [Json.number?]

/-- A value has elements exactly if it is an array. -/
theorem elements?_eq_some_iff (value : Json) (elements : List Json) :
    value.elements? = some elements ↔ value = .array elements := by
  cases value <;> simp [Json.elements?]

/-- An entry is read as a constant exactly if it describes the number. -/
theorem toNumber_eq_ok_iff (name : String) (value : Json) (number : Number) :
    toNumber name value = .ok number ↔ value.DescribesNumber number := by
  simp only [toNumber, bind_eq_ok_iff, objectOf_eq_ok_iff, member_eq_ok_iff, typed_eq_ok_iff,
    text?_eq_some_iff, number?_eq_some_iff]
  constructor
  · rintro ⟨members, rfl, _, kindFound, _, reFound, _, imFound, kind, rfl, re, rfl, im, rfl, same⟩
    refine ⟨members, re, im, rfl, reFound, imFound, ?_⟩
    split at same
    · exact Or.inl ⟨kindFound, (Except.ok.inj same).symm⟩
    · exact Or.inr ⟨kindFound, (Except.ok.inj same).symm⟩
    · contradiction
  · rintro ⟨members, re, im, rfl, reFound, imFound, ⟨kindFound, rfl⟩ | ⟨kindFound, rfl⟩⟩
    · exact ⟨members, rfl, _, kindFound, _, reFound, _, imFound, _, rfl, re, rfl, im, rfl, rfl⟩
    · exact ⟨members, rfl, _, kindFound, _, reFound, _, imFound, _, rfl, re, rfl, im, rfl, rfl⟩

/-- An entry is read as a function exactly if it describes the function. -/
theorem toFunctionEntry_eq_ok_iff (listed : String × Json) (entry : FunctionEntry) :
    toFunctionEntry listed = .ok entry ↔
      entry.name = listed.1 ∧ listed.2.DescribesFunction entry.definition entry.parameters := by
  obtain ⟨name, value⟩ := listed
  obtain ⟨own, definition, parameters⟩ := entry
  have texts (elements : List Json) (names : List String) :
      List.Forall₂ (fun parameter text => parameter = Json.string text) elements names ↔
        elements = names.map .string := by
    rw [← List.forall₂_eq_eq_eq, List.forall₂_map_right_iff]
  simp only [toFunctionEntry, bind_eq_ok_iff, objectOf_eq_ok_iff, member_eq_ok_iff,
    typed_eq_ok_iff, text?_eq_some_iff, elements?_eq_some_iff, mapM_eq_ok_iff, texts]
  constructor
  · rintro ⟨members, rfl, _, found, _, alsoFound, text, rfl, elements, rfl, names, rfl, same⟩
    obtain ⟨rfl, rfl, rfl⟩ := FunctionEntry.mk.inj (Except.ok.inj same)
    exact ⟨rfl, members, rfl, found, alsoFound⟩
  · rintro ⟨rfl, members, rfl, found, alsoFound⟩
    exact ⟨members, rfl, _, found, _, alsoFound, definition, rfl, _, rfl, parameters, rfl, rfl⟩

/-- The constants of a document that pass the checks are defined with their numbers, and other names
keep the constants that they had. -/
theorem constants_of_addConstants {constants : List (String × Json)} {context start : Context}
    (distinct : (constants.map Prod.fst).Nodup)
    (added : constants.foldlM addConstant context = .ok start) :
    (∀ entry ∈ constants, ∃ number, entry.2.DescribesNumber number ∧
        start.constants.find? entry.1 = some number) ∧
      ∀ name, name ∉ constants.map Prod.fst →
        start.constants.find? name = context.constants.find? name := by
  induction constants generalizing context with
  | nil =>
    obtain rfl := Except.ok.inj added
    exact ⟨List.forall_mem_nil _, fun _ _ => rfl⟩
  | cons first others ih =>
    rw [List.foldlM_cons, bind_eq_ok_iff] at added
    obtain ⟨middle, taken, rest⟩ := added
    rw [List.map_cons, List.nodup_cons] at distinct
    obtain ⟨absent, further⟩ := distinct
    obtain ⟨_, number, read, rfl⟩ := (addConstant_eq_ok_iff ..).mp taken
    obtain ⟨described, kept⟩ := ih further rest
    refine ⟨List.forall_mem_cons.mpr ⟨⟨number, (toNumber_eq_ok_iff ..).mp read, ?_⟩, described⟩, ?_⟩
    · rw [kept first.1 absent, Context.defineConstant, Table.find?_insert, if_pos rfl]
    · intro name free
      rw [List.map_cons, List.mem_cons, not_or] at free
      rw [kept name free.2, Context.defineConstant, Table.find?_insert, if_neg free.1]

/-- A document that is loaded lists constants and functions, each name once. The constants pass the
checks, the functions are well typed, and then the functions are defined behind the constants. -/
theorem exists_parts_of_toContext {document : Json} {loaded : Context}
    (ascending : document.Ascending) (succeeds : toContext document = .ok loaded) :
    ∃ constants functions start entries, document.Lists constants functions ∧
      (constants.map Prod.fst).Nodup ∧ (functions.map Prod.fst).Nodup ∧
      constants.foldlM addConstant {} = .ok start ∧
      functions.mapM toFunctionEntry = .ok entries ∧ defineAll start entries = .ok loaded := by
  simp only [toContext, bind_eq_ok_iff, objectOf_eq_ok_iff, member_eq_ok_iff] at succeeds
  obtain ⟨members, rfl, _, hasConstants, _, hasFunctions, constants, rfl, functions, rfl,
    start, added, entries, described, defined⟩ := succeeds
  exact ⟨constants, functions, start, entries, ⟨members, rfl, hasConstants, hasFunctions⟩,
    (ascending.of_lookup hasConstants).nodup, (ascending.of_lookup hasFunctions).nodup, added,
    described, defined⟩

/-- An accepted definition that meets its entry, whose name is not that of a function yet, defines
the function of the entry. -/
theorem exists_defines_of_metBy {context next : Context} {entry : FunctionEntry} {outcome : Outcome}
    (fresh : context.functions.find? entry.name = none)
    (entered : context.enter entry.definition = .ok (next, outcome))
    (met : entry.metBy next outcome = true) :
    ∃ function, context.Defines entry.definition entry.name function ∧
      function.parameters = entry.parameters ∧
      next = context.defineFunction entry.name function := by
  cases context.entry_of_enter entered with
  | answer expr => contradiction
  | constant position origin name place right =>
    have gone : (context.functions.erase name).find? entry.name = none := by
      rw [Table.find?_erase, fresh, ite_self]
    rw [FunctionEntry.metBy, Context.defineConstant, gone] at met
    contradiction
  | function name function defines =>
    rw [FunctionEntry.metBy, Context.defineFunction, Table.find?_insert] at met
    split at met
    · next same =>
      subst same
      have parameters : function.parameters = entry.parameters := eq_of_beq met
      exact ⟨function, defines, parameters, rfl⟩
    · rw [fresh] at met
      contradiction

/-- The context that has the constants of `start` and the functions of `context`. -/
def behind (start context : Context) : Context :=
  { constants := start.constants, functions := context.functions }

/-- The context has come about from `start` by definitions that met their entries. -/
structure Holds (start : Context) (done : List FunctionEntry) (context : Context) : Prop where
  /-- There are no functions but those of the entries. -/
  only : ∀ name function, context.functions.find? name = some function →
    ∃ entry ∈ done, entry.name = name
  /-- Every entry has its function, with its parameters and its text. -/
  defined : ∀ entry ∈ done, ∃ function, context.functions.find? entry.name = some function ∧
    function.parameters = entry.parameters ∧ function.definition = trimMargins entry.definition
  /-- A constant is lost exactly if an entry has its name. -/
  constants : ∀ name, context.constants.find? name =
    if name ∈ done.map FunctionEntry.name then none else start.constants.find? name
  /-- The bodies are resolved with all constants of the start. -/
  resolved : ∀ name function, context.functions.find? name = some function →
    (behind start context).Resolved function.parameters function.body

namespace Holds

variable {start context : Context} {done : List FunctionEntry}

/-- Without entries there is the start, if it has no functions. -/
theorem empty (noFunctions : start.functions = .empty) : Holds start [] start where
  only name function found := by
    rw [noFunctions] at found
    contradiction
  defined := List.forall_mem_nil _
  constants name := (if_neg List.not_mem_nil).symm
  resolved name function found := by
    rw [noFunctions] at found
    contradiction

/-- An entry that meets no function of its name is defined behind the others. -/
theorem snoc (holds : Holds start done context) {entry : FunctionEntry} {function : UserFunction}
    (free : entry.name ∉ done.map FunctionEntry.name)
    (fresh : context.functions.find? entry.name = none)
    (defines : context.Defines entry.definition entry.name function)
    (parameters : function.parameters = entry.parameters) :
    Holds start (done ++ [entry]) (context.defineFunction entry.name function) := by
  have looked (name : String) :
      (context.defineFunction entry.name function).functions.find? name =
        if name = entry.name then some function else context.functions.find? name :=
    context.functions.find?_insert ..
  have constants (name : String) (known : (context.constant? name).isSome = true) :
      ((behind start context).constant? name).isSome = true := by
    rw [Context.constant?, Option.isSome_or, Bool.or_eq_true] at known ⊢
    refine known.imp_right fun there => ?_
    rw [holds.constants] at there
    split at there
    · contradiction
    · exact there
  have grown {parameters : List String} {body : Expr}
      (resolved : (behind start context).Resolved parameters body) :
      (behind start (context.defineFunction entry.name function)).Resolved parameters body := by
    refine resolved.mono (fun _ known => known) fun name count known => ?_
    by_cases same : name = entry.name
    · have free := defines.stored.free
      have there := Context.contains_of_arity? known (same ▸ free)
      rw [same, Table.contains, behind, fresh] at there
      contradiction
    · have kept := (looked name).trans (if_neg same)
      rwa [Context.arity?, behind, kept]
  have own : (behind start context).Resolved function.parameters function.body := by
    obtain ⟨right, _, body, accepts⟩ := defines.exists_isDefinition
    rw [body, Context.resolved_relabel]
    exact accepts.resolved.mono constants fun _ _ known => known
  refine ⟨?_, ?_, ?_, ?_⟩
  · intro name stored found
    rw [looked] at found
    split at found
    · next same => exact ⟨entry, by simp, same.symm⟩
    · obtain ⟨earlier, member, named⟩ := holds.only name stored found
      exact ⟨earlier, List.mem_append_left [entry] member, named⟩
  · intro other member
    rcases List.mem_append.mp member with earlier | last
    · have different : other.name ≠ entry.name := by
        intro same
        exact free (same ▸ List.mem_map_of_mem earlier)
      rw [looked, if_neg different]
      exact holds.defined other earlier
    · obtain rfl := List.mem_singleton.mp last
      rw [looked, if_pos rfl]
      exact ⟨function, rfl, parameters, defines.text⟩
  · intro name
    rw [Context.defineFunction, Table.find?_erase, holds.constants]
    by_cases last : name = entry.name <;> simp [last]
  · intro name stored found
    rw [looked] at found
    split at found
    · obtain rfl := Option.some.inj found
      exact grown own
    · exact grown (holds.resolved name stored found)

/-- An entry of a new name whose line is accepted and meets it is defined behind the others. -/
theorem enter (holds : Holds start done context) {next : Context} {entry : FunctionEntry}
    {outcome : Outcome} (free : entry.name ∉ done.map FunctionEntry.name)
    (entered : context.enter entry.definition = .ok (next, outcome))
    (met : entry.metBy next outcome = true) : Holds start (done ++ [entry]) next := by
  have fresh : context.functions.find? entry.name = none := by
    rw [Option.eq_none_iff_forall_not_mem]
    intro function found
    obtain ⟨other, member, same⟩ := holds.only _ function found
    exact free (same ▸ List.mem_map_of_mem member)
  obtain ⟨function, defines, parameters, rfl⟩ := exists_defines_of_metBy fresh entered met
  exact holds.snoc free fresh defines parameters

/-- A symbol that is there with all constants of the start is there, or it is a constant that is
lost to an entry of its name. -/
theorem hasSymbol_or (holds : Holds start done context) {parameters : List String} {node : Expr}
    (symbol : (behind start context).HasSymbol parameters node) :
    context.HasSymbol parameters node ∨
      ∃ origin name position, node = .constant origin name position ∧
        start.constants.contains name = true ∧ name ∈ done.map FunctionEntry.name := by
  cases node with
  | number | signed | binary | value => exact Or.inl trivial
  | call origin =>
    cases origin with
    | builtIn | user | unknown => exact Or.inl symbol
  | constant origin name position =>
    rcases symbol with parameter | builtIn | known
    · exact Or.inl (Or.inl parameter)
    · exact Or.inl (Or.inr (Or.inl builtIn))
    · by_cases taken : name ∈ done.map FunctionEntry.name
      · exact Or.inr ⟨origin, name, position, rfl, known, taken⟩
      · have there : context.constants.contains name = true := by
          rw [Table.contains, holds.constants, if_neg taken]
          exact known
        exact Or.inl (Or.inr (Or.inr there))

/-- It does not matter in which order the entries are listed. -/
theorem perm (holds : Holds start done context) {others : List FunctionEntry}
    (same : done.Perm others) : Holds start others context where
  only name function found := by
    obtain ⟨entry, member, named⟩ := holds.only name function found
    exact ⟨entry, same.mem_iff.mp member, named⟩
  defined entry member := holds.defined entry (same.mem_iff.mpr member)
  constants name := by
    have names := (same.map FunctionEntry.name).mem_iff (a := name)
    simp only [holds.constants, names]
  resolved := holds.resolved

end Holds

/-- The context that the entries of different names lead to behind a context without functions
holds them. -/
theorem holds_of_defineAll {start loaded : Context} {entries : List FunctionEntry}
    (noFunctions : start.functions = .empty) (distinct : (entries.map FunctionEntry.name).Nodup)
    (defined : defineAll start entries = .ok loaded) : Holds start entries loaded := by
  let property (done : List FunctionEntry) (context : Context) : Prop :=
    (done.map FunctionEntry.name).Nodup → Holds start done context
  have step {done : List FunctionEntry} {context next : Context} {entry : FunctionEntry}
      {outcome : Outcome} (earlier : property done context)
      (entered : context.enter entry.definition = .ok (next, outcome))
      (met : entry.metBy next outcome = true) : property (done ++ [entry]) next := by
    intro names
    rw [List.map_append, List.nodup_append] at names
    obtain ⟨before, _, apart⟩ := names
    have free : entry.name ∉ done.map FunctionEntry.name := fun member =>
      apart _ member _ (List.mem_singleton_self _) rfl
    exact (earlier before).enter free entered met
  have begins : property [] start := fun _ => .empty noFunctions
  obtain ⟨order, perm, holds⟩ := exists_order_of_defineAll property step begins defined
  have names : (order.map FunctionEntry.name).Nodup := (perm.map _).nodup_iff.mpr distinct
  exact (holds names).perm perm

/-- Of two lists that are paired by a relation, every element has a partner. -/
theorem partners_of_forall₂ {α β : Type} {relation : α → β → Prop} {first : List α}
    {second : List β} (paired : List.Forall₂ relation first second) :
    (∀ left ∈ first, ∃ right ∈ second, relation left right) ∧
      ∀ right ∈ second, ∃ left ∈ first, relation left right := by
  induction paired with
  | nil => exact ⟨List.forall_mem_nil _, List.forall_mem_nil _⟩
  | @cons left right _ _ related _ ih =>
    obtain ⟨forth, back⟩ := ih
    constructor
    · refine List.forall_mem_cons.mpr ⟨⟨right, List.mem_cons_self, related⟩, fun other member => ?_⟩
      obtain ⟨partner, among, holds⟩ := forth other member
      exact ⟨partner, List.mem_cons_of_mem right among, holds⟩
    · refine List.forall_mem_cons.mpr ⟨⟨left, List.mem_cons_self, related⟩, fun other member => ?_⟩
      obtain ⟨partner, among, holds⟩ := back other member
      exact ⟨partner, List.mem_cons_of_mem left among, holds⟩

/-- A document that is loaded lists constants and functions, and what they lead to holds them. -/
theorem exists_holds_of_toContext {document : Json} {loaded : Context}
    (ascending : document.Ascending) (succeeds : toContext document = .ok loaded) :
    ∃ constants functions start entries, document.Lists constants functions ∧
      (∀ entry ∈ constants, ∃ number, entry.2.DescribesNumber number ∧
        start.constants.find? entry.1 = some number) ∧
      (∀ name number, start.constants.find? name = some number → name ∈ constants.map Prod.fst) ∧
      (∀ listed ∈ functions, ∃ entry ∈ entries, entry.name = listed.1 ∧
        listed.2.DescribesFunction entry.definition entry.parameters) ∧
      (∀ entry ∈ entries, ∃ listed ∈ functions, entry.name = listed.1 ∧
        listed.2.DescribesFunction entry.definition entry.parameters) ∧
      Holds start entries loaded := by
  obtain ⟨constants, functions, start, entries, lists, distinct, apart, added, described,
    defined⟩ := exists_parts_of_toContext ascending succeeds
  obtain ⟨numbers, others⟩ := constants_of_addConstants distinct added
  have fresh := functions_of_addConstants rfl added
  have names : (entries.map FunctionEntry.name).Nodup := by
    rwa [names_of_toFunctionEntry described]
  have only (name : String) (number : Number) (found : start.constants.find? name = some number) :
      name ∈ constants.map Prod.fst := by
    by_contra absent
    rw [others name absent] at found
    contradiction
  have paired := (mapM_eq_ok_iff ..).mp described
  simp only [toFunctionEntry_eq_ok_iff] at paired
  obtain ⟨forth, back⟩ := partners_of_forall₂ paired
  exact ⟨constants, functions, start, entries, lists, numbers, only, forth, back,
    holds_of_defineAll fresh names defined⟩

/-- A loaded context holds exactly the functions of its document, with their parameters and texts,
and no constants but those of the document. -/
theorem mirrors_of_toContext {document : Json} {loaded : Context}
    (ascending : document.Ascending) (succeeds : toContext document = .ok loaded) :
    ∃ constants functions, document.Lists constants functions ∧
      loaded.Mirrors constants functions := by
  obtain ⟨constants, functions, start, entries, lists, numbers, listed, forth, back, holds⟩ :=
    exists_holds_of_toContext ascending succeeds
  refine ⟨constants, functions, lists, ?_, ?_, ?_⟩
  · intro name value member
    obtain ⟨entry, among, rfl, describes⟩ := forth _ member
    obtain ⟨function, found, parameters, definition⟩ := holds.defined entry among
    exact ⟨function, found, entry.definition, parameters ▸ describes, definition⟩
  · intro name function found
    obtain ⟨entry, among, rfl⟩ := holds.only name function found
    obtain ⟨⟨own, value⟩, member, rfl, describes⟩ := back entry among
    obtain ⟨stored, alsoFound, parameters, definition⟩ := holds.defined entry among
    obtain rfl := Option.some.inj (found.symm.trans alsoFound)
    exact ⟨value, member, entry.definition, parameters ▸ describes, definition⟩
  · intro name number found
    rw [holds.constants] at found
    split at found
    · contradiction
    · obtain ⟨⟨own, value⟩, member, rfl⟩ := List.mem_map.mp (listed name number found)
      obtain ⟨other, describes, alsoFound⟩ := numbers _ member
      obtain rfl := Option.some.inj (found.symm.trans alsoFound)
      exact ⟨value, member, describes⟩

/-- A document with an imaginary part of a real constant, with margins around a definition, and with
a constant and a function of one name. -/
def sharedDocument : Json :=
  listing [("k", "Real", 2, 3), ("z", "Real", 1, 0)]
    [("b", " b(x)=k*x+z", ["x"]), ("z", "z(x)=b(x)", ["x"])]

/-- The members of the document are in ascending order. -/
theorem ascending_sharedDocument : sharedDocument.Ascending := ascending_listing ..

/-- The document is loaded. The function takes the place of the constant of its name, and a body
which uses the constant is left without it. -/
theorem sharedDocument_loads : ∃ constants functions loaded,
    sharedDocument.Lists constants functions ∧ constants.map Prod.fst = ["k", "z"] ∧
      toContext sharedDocument = .ok loaded ∧ loaded.constants.contains "z" = false ∧
      ∃ function, loaded.functions.find? "b" = some function ∧
        ¬ ∀ node ∈ function.body.nodes, loaded.HasSymbol function.parameters node := by
  have names : (sharedDocument.members?.bind fun members =>
      ((members.lookup "constants").bind Json.members?).map (List.map Prod.fst)) =
      some ["k", "z"] := by
    decide +kernel
  have loads : ((toContext sharedDocument).map fun loaded =>
      (loaded.constants.contains "z", (loaded.functions.find? "b").map fun function =>
        decide (∀ node ∈ function.body.nodes, loaded.HasSymbol function.parameters node))) =
      .ok (false, some false) := by
    decide +kernel
  cases succeeds : toContext sharedDocument with
  | error fault =>
    rw [succeeds] at loads
    cases loads
  | ok loaded =>
    rw [succeeds] at loads
    obtain ⟨lost, left⟩ := Prod.mk.inj (Except.ok.inj loads)
    obtain ⟨function, found, incomplete⟩ := Option.map_eq_some_iff.mp left
    obtain ⟨constants, functions, _, _, lists, _⟩ :=
      exists_parts_of_toContext ascending_sharedDocument succeeds
    have listed : constants.map Prod.fst = ["k", "z"] := by
      obtain ⟨members, same, hasConstants, _⟩ := lists
      rw [same, Json.members?, Option.bind_some, hasConstants] at names
      exact Option.some.inj names
    exact ⟨constants, functions, loaded, lists, listed, rfl, lost, function, found,
      of_decide_eq_false incomplete⟩

/-- The context of the document holds what the document lists. -/
theorem sharedDocument_mirrored : sharedDocument.Ascending ∧
    ∃ loaded, toContext sharedDocument = .ok loaded ∧ ∃ constants functions,
      sharedDocument.Lists constants functions ∧ loaded.Mirrors constants functions := by
  obtain ⟨_, _, loaded, _, _, succeeds, _⟩ := sharedDocument_loads
  exact ⟨ascending_sharedDocument, loaded, succeeds,
    mirrors_of_toContext ascending_sharedDocument succeeds⟩

/-- A loaded context has the constants of its document and all symbols of its bodies, except for
constants whose name is also that of a function of the document. -/
theorem completes_of_toContext {document : Json} {loaded : Context}
    (ascending : document.Ascending) (succeeds : toContext document = .ok loaded) :
    ∃ constants functions, document.Lists constants functions ∧
      loaded.Completes constants functions := by
  obtain ⟨constants, functions, start, entries, lists, numbers, listed, _, back, holds⟩ :=
    exists_holds_of_toContext ascending succeeds
  have named {name : String} (member : name ∈ entries.map FunctionEntry.name) :
      name ∈ functions.map Prod.fst := by
    obtain ⟨entry, among, rfl⟩ := List.mem_map.mp member
    obtain ⟨other, member, same, _⟩ := back entry among
    exact same ▸ List.mem_map_of_mem member
  refine ⟨constants, functions, lists, ?_, ?_⟩
  · intro name value member free
    obtain ⟨number, describes, found⟩ := numbers _ member
    have kept : name ∉ entries.map FunctionEntry.name := fun taken => free (named taken)
    refine ⟨number, ?_, describes⟩
    rw [holds.constants, if_neg kept, found]
  · intro name function found node member
    have stored : Stored name function :=
      (Context.kept_functions Context.Defines.stored).toContext succeeds name function found
    have symbol := (holds.resolved name function found).hasSymbol stored.isCanonical node member
    rcases holds.hasSymbol_or symbol with there | ⟨origin, lost, position, same, known, taken⟩
    · exact Or.inl there
    · obtain ⟨number, found⟩ := Option.isSome_iff_exists.mp known
      exact Or.inr ⟨origin, lost, position, same, listed lost number found, named taken⟩

/-- The context of the document has what is not lost. -/
theorem sharedDocument_completed : sharedDocument.Ascending ∧
    ∃ loaded, toContext sharedDocument = .ok loaded ∧ ∃ constants functions,
      sharedDocument.Lists constants functions ∧ loaded.Completes constants functions := by
  obtain ⟨_, _, loaded, _, _, succeeds, _⟩ := sharedDocument_loads
  exact ⟨ascending_sharedDocument, loaded, succeeds,
    completes_of_toContext ascending_sharedDocument succeeds⟩

/-- Not every loaded context has all constants of its document, and not every one has all symbols of
its bodies. -/
theorem not_every_load_completes :
    (¬ ∀ (document : Json) loaded constants functions, document.Ascending →
      toContext document = .ok loaded → document.Lists constants functions →
      ∀ name ∈ constants.map Prod.fst, loaded.constants.contains name = true) ∧
    ¬ ∀ (document : Json) loaded, document.Ascending → toContext document = .ok loaded →
      ∀ name function, loaded.functions.find? name = some function →
      ∀ node ∈ function.body.nodes, loaded.HasSymbol function.parameters node := by
  obtain ⟨constants, functions, loaded, lists, listed, succeeds, lost, function, found,
    incomplete⟩ := sharedDocument_loads
  constructor
  · intro every
    have kept := every sharedDocument loaded constants functions ascending_sharedDocument
      succeeds lists "z"
    rw [listed, lost] at kept
    exact Bool.false_ne_true (kept (by decide))
  · intro every
    exact incomplete
      (every sharedDocument loaded ascending_sharedDocument succeeds "b" function found)

end Document

end Reckoner
