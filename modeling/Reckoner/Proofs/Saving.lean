import Reckoner.Context.Document
import Reckoner.Proofs.Checking
/-!
# What loading finds in a saved document

The document of a context lists its constants and functions in the order of their names. Read back,
it gives every constant its value and every function its text and parameters, so loading it comes to
defining the constants, which must not have the names of built-in ones, and then the functions.
-/

namespace Reckoner

namespace Table

variable {α : Type}

/-- A table is determined by its listing. -/
theorem eq_of_entries {first second : Table α} (same : first.entries = second.entries) :
    first = second := by
  obtain ⟨entries, ascending⟩ := first
  obtain rfl : entries = second.entries := same
  rfl

/-- An entry behind all others goes to the end. -/
theorem insertEntry_last {name : String} {value : α} {list : List (String × α)}
    (last : ∀ entry ∈ list, entry.1 < name) :
    insertEntry name value list = list ++ [(name, value)] := by
  induction list with
  | nil => rfl
  | cons head rest ih =>
    have before := last head List.mem_cons_self
    rw [insertEntry, if_neg (String.lt_asymm before), if_neg (String.ne_of_lt before).symm,
      ih fun entry member => last entry (List.mem_cons_of_mem _ member)]
    rfl

/-- Putting ascending entries into a list one after the other gives their listing. -/
theorem foldl_insertEntry {front list : List (String × α)}
    (ascending : (front ++ list).Pairwise fun earlier later => earlier.1 < later.1) :
    list.foldl (fun entries entry => insertEntry entry.1 entry.2 entries) front =
      front ++ list := by
  induction list generalizing front with
  | nil => simp
  | cons head rest ih =>
    have last : ∀ entry ∈ front, entry.1 < head.1 := fun entry member =>
      (List.pairwise_append.mp ascending).2.2 entry member head List.mem_cons_self
    rw [List.foldl_cons, insertEntry_last last, ih (by simpa using ascending)]
    simp

/-- A name has a value exactly if the entry is listed. -/
theorem find?_eq_some_iff (table : Table α) (name : String) (value : α) :
    table.find? name = some value ↔ (name, value) ∈ table.entries := by
  refine ⟨mem_of_lookup, ?_⟩
  obtain ⟨entries, ascending⟩ := table
  intro member
  show entries.lookup name = some value
  induction entries with
  | nil => contradiction
  | cons head rest ih =>
    obtain ⟨key, held⟩ := head
    rw [lookup_cons_ite]
    rcases List.mem_cons.mp member with same | later
    · obtain ⟨rfl, rfl⟩ := Prod.mk.inj same
      rw [if_pos rfl]
    · have before : key < name := List.rel_of_pairwise_cons ascending later
      rw [if_neg (String.ne_of_lt before).symm]
      exact ih ascending.of_cons later

end Table

namespace Document

/-- An object of ascending members lists them. -/
theorem ofMembers_of_ascending {members : List (String × Json)}
    (ascending : members.Pairwise fun earlier later => earlier.1 < later.1) :
    Json.ofMembers members = .object members := by
  rw [Json.ofMembers, Table.foldl_insertEntry ascending]
  rfl

/-- The entry of a constant has its value. -/
theorem toNumber_ofNumber (name : String) (number : Number) :
    toNumber name (ofNumber number) = .ok number := by
  have entry : ofNumber number = .object [("im", .number number.im), ("re", .number number.re),
      ("type", .string (if number.isReal then "Real" else "Complex"))] := by
    simp only [ofNumber, Json.ofMembers, List.foldl, Table.insertEntry, String.reduceLT,
      ↓reduceIte]
  rw [entry]
  cases number <;> rfl

/-- The entry of a function has its text and its parameters. -/
theorem toFunctionEntry_ofFunction (name : String) (function : UserFunction) :
    toFunctionEntry (name, ofFunction function) =
      .ok ⟨name, function.definition, function.parameters⟩ := by
  have texts : (function.parameters.map Json.string).mapM (fun parameter =>
      typed (name ++ ".args") "array of strings" parameter.text?) = .ok function.parameters := by
    rw [mapM_eq_ok_iff, List.forall₂_map_left_iff]
    exact List.forall₂_same.mpr fun _ _ => rfl
  have entry : ofFunction function = .object [("args", .array (function.parameters.map .string)),
      ("definition", .string function.definition)] := by
    simp only [ofFunction, Json.ofMembers, List.foldl, Table.insertEntry, String.reduceLT,
      ↓reduceIte]
  rw [entry]
  show (function.parameters.map Json.string).mapM (fun parameter =>
      typed (name ++ ".args") "array of strings" parameter.text?) >>= (fun parameters =>
        .ok (FunctionEntry.mk name function.definition parameters)) = _
  rw [texts]
  rfl

/-- The functions of a context as its document describes them. -/
def functionEntries (context : Context) : List FunctionEntry :=
  context.functions.entries.map fun entry =>
    ⟨entry.1, entry.2.definition, entry.2.parameters⟩

/-- The entries of the constants of a context. -/
def constantEntries (context : Context) : List (String × Json) :=
  context.constants.entries.map fun entry => (entry.1, ofNumber entry.2)

/-- Loading the document of a context defines its constants and then its functions. -/
theorem toContext_ofContext (context : Context) :
    toContext (ofContext context) =
      (constantEntries context).foldlM addConstant {} >>= fun loaded =>
        defineAll loaded (functionEntries context) := by
  have constants : Json.ofMembers (constantEntries context) = .object (constantEntries context) :=
    ofMembers_of_ascending (context.constants.ascending.map _ fun _ _ before => before)
  have functions : Json.ofMembers (context.functions.entries.map fun entry =>
        (entry.1, ofFunction entry.2)) =
      .object (context.functions.entries.map fun entry => (entry.1, ofFunction entry.2)) :=
    ofMembers_of_ascending (context.functions.ascending.map _ fun _ _ before => before)
  have document : ofContext context = .object [("constants", .object (constantEntries context)),
      ("functions",
        .object (context.functions.entries.map fun entry => (entry.1, ofFunction entry.2)))] := by
    rw [← constants, ← functions]
    simp only [ofContext, Json.ofMembers, List.foldl, Table.insertEntry, String.reduceLT,
      String.reduceEq, ↓reduceIte, constantEntries]
  have entries : (context.functions.entries.map fun entry =>
        (entry.1, ofFunction entry.2)).mapM toFunctionEntry = .ok (functionEntries context) := by
    rw [mapM_eq_ok_iff, functionEntries, List.forall₂_map_left_iff, List.forall₂_map_right_iff]
    exact List.forall₂_same.mpr fun entry _ => toFunctionEntry_ofFunction entry.1 entry.2
  rw [document]
  show (constantEntries context).foldlM addConstant {} >>= (fun loaded =>
      (context.functions.entries.map fun entry => (entry.1, ofFunction entry.2)).mapM
        toFunctionEntry >>= fun entries => defineAll loaded entries) = _
  rw [entries]
  rfl

/-- A text is loaded exactly if the library reads it as a document that describes the context. -/
theorem load_eq_ok_iff {library : Json.Library} {text : String} {context : Context} :
    load library text = .ok context ↔
      ∃ document, library.read text = .document document ∧ toContext document = .ok context := by
  unfold load
  cases library.read text with
  | document document => simp [mapError_eq_ok_iff]
  | refused report => simp
  | aborted report => simp

/-- The name can be that of a constant in a document. -/
structure Nameable (name : String) : Prop where
  /-- It is a name. -/
  isName : Reckoner.isName name = true
  /-- It is no built-in constant. -/
  noConstant : builtInConstant? name = none
  /-- It is no built-in function. -/
  noFunction : BuiltIn.ofName? name = none

/-- An entry is taken over as a constant exactly if its name can be that of a constant and it
describes a number. -/
theorem addConstant_eq_ok_iff (context next : Context) (entry : String × Json) :
    addConstant context entry = .ok next ↔
      Nameable entry.1 ∧ ∃ number, toNumber entry.1 entry.2 = .ok number ∧
        next = context.defineConstant entry.1 number := by
  obtain ⟨name, value⟩ := entry
  rw [addConstant]
  split
  · next refused =>
    simp only [Bool.or_eq_true, Bool.not_eq_true', Option.isSome_iff_ne_none] at refused
    constructor
    · intro impossible
      contradiction
    · rintro ⟨⟨valid, noConstant, noFunction⟩, _⟩
      simp [valid, noConstant, noFunction] at refused
  · next taken =>
    simp only [Bool.or_eq_true, Bool.not_eq_true', not_or, Bool.not_eq_false,
      Option.not_isSome_iff_eq_none] at taken
    obtain ⟨⟨valid, noConstant⟩, noFunction⟩ := taken
    rw [and_iff_right ⟨valid, noConstant, noFunction⟩]
    refine (bind_eq_ok_iff ..).trans (exists_congr fun number => and_congr_right' ?_)
    exact ⟨fun same => (Except.ok.inj same).symm, fun same => congrArg Except.ok same.symm⟩

/-- The entry of a number is taken over exactly if its name can be that of a constant. -/
theorem addConstant_ofNumber_eq_ok_iff (context next : Context) (name : String) (number : Number) :
    addConstant context (name, ofNumber number) = .ok next ↔
      Nameable name ∧ next = context.defineConstant name number := by
  simp only [addConstant_eq_ok_iff, toNumber_ofNumber, Except.ok.injEq, exists_eq_left']

/-- The constants of a document are taken over exactly if their names can be those of constants. -/
theorem foldlM_addConstant_eq_ok_iff (entries : List (String × Number)) (context next : Context) :
    (entries.map fun entry => (entry.1, ofNumber entry.2)).foldlM addConstant context =
        .ok next ↔
      (∀ entry ∈ entries, Nameable entry.1) ∧
        next = entries.foldl (fun context entry => context.defineConstant entry.1 entry.2)
          context := by
  induction entries generalizing context with
  | nil => simp [pure, Except.pure, eq_comm]
  | cons entry others ih =>
    rw [List.map_cons, List.foldlM_cons, bind_eq_ok_iff, List.forall_mem_cons, List.foldl_cons]
    simp only [addConstant_ofNumber_eq_ok_iff, ih]
    constructor
    · rintro ⟨middle, ⟨first, rfl⟩, others, rfl⟩
      exact ⟨⟨first, others⟩, rfl⟩
    · rintro ⟨⟨first, others⟩, rfl⟩
      exact ⟨_, ⟨first, rfl⟩, others, rfl⟩

/-- Defining constants puts them into the table and defines no functions. -/
theorem foldl_defineConstant (entries : List (String × Number)) (constants : Table Number) :
    ((entries.foldl (fun (context : Context) entry => context.defineConstant entry.1 entry.2)
        { constants := constants }).constants.entries =
      entries.foldl (fun list entry => Table.insertEntry entry.1 entry.2 list)
        constants.entries) ∧
    (entries.foldl (fun (context : Context) entry => context.defineConstant entry.1 entry.2)
        { constants := constants }).functions = .empty := by
  induction entries generalizing constants with
  | nil => exact ⟨rfl, rfl⟩
  | cons entry others ih => exact ih (constants.insert entry.1 entry.2)

/-- Defining the constants of a context again gives its constants and no functions. -/
theorem foldl_constants (context : Context) :
    context.constants.entries.foldl
        (fun (loaded : Context) entry => loaded.defineConstant entry.1 entry.2) {} =
      { constants := context.constants } := by
  obtain ⟨constants, functions⟩ := foldl_defineConstant context.constants.entries .empty
  have listed : context.constants.entries.foldl
        (fun list entry => Table.insertEntry entry.1 entry.2 list) [] =
      [] ++ context.constants.entries := Table.foldl_insertEntry context.constants.ascending
  generalize context.constants.entries.foldl (fun (loaded : Context) entry =>
    loaded.defineConstant entry.1 entry.2) { constants := .empty } = loaded at *
  obtain ⟨table, others⟩ := loaded
  obtain rfl : table = context.constants := Table.eq_of_entries (constants.trans listed)
  obtain rfl : others = .empty := functions
  rfl

/-- Loading the document of a context succeeds exactly if the names of its constants can be those of
constants and its functions can be defined. -/
theorem toContext_ofContext_eq_ok_iff (context loaded : Context) :
    toContext (ofContext context) = .ok loaded ↔
      (∀ name number, context.constants.find? name = some number → Nameable name) ∧
        defineAll { constants := context.constants } (functionEntries context) = .ok loaded := by
  have names : (∀ entry ∈ context.constants.entries, Nameable entry.1) ↔
      ∀ name number, context.constants.find? name = some number → Nameable name := by
    simp only [Table.find?_eq_some_iff]
    exact ⟨fun all name number member => all (name, number) member,
      fun all entry member => all entry.1 entry.2 member⟩
  rw [toContext_ofContext, bind_eq_ok_iff]
  simp only [constantEntries, foldlM_addConstant_eq_ok_iff, foldl_constants, names]
  constructor
  · rintro ⟨_, ⟨nameable, rfl⟩, rest⟩
    exact ⟨nameable, rest⟩
  · rintro ⟨nameable, rest⟩
    exact ⟨_, ⟨nameable, rfl⟩, rest⟩

end Document

end Reckoner
