import Reckoner.Proofs.Entering
import Reckoner.Proofs.Members
/-!
# Loading in any order

The functions of a document are tried in the order of their names, and those that are refused are
tried again. If the definitions can be entered one after the other in some order at all, every round
defines one of them: the first in that order which is still pending. All orders lead to the same
context, so loading is complete and does not depend on the order of the entries.
-/

namespace Reckoner

namespace Document

/-- The tree is the definition of a function of the name and the parameters of the entry. -/
def FunctionEntry.DefinedBy (entry : FunctionEntry) (tree : Expr) : Prop :=
  ∃ position origin place arguments right,
    tree = .binary .assign position (.call origin entry.name place arguments) right ∧
      arguments.map Expr.rootText = entry.parameters

/-- Whenever a definition is parsed behind others, it defines a function of the name and the
parameters of its entry. -/
def Faithful (start : Context) (entries : List FunctionEntry) : Prop :=
  ∀ earlier context, earlier.Subperm entries → Applies start earlier context →
    ∀ entry ∈ entries, ∀ tree, context.parse entry.definition = .ok tree → entry.DefinedBy tree

/-- The entries can be entered behind `start` without getting into each other's way. -/
structure Loadable (start : Context) (entries : List FunctionEntry) : Prop where
  /-- No function is defined at the start. -/
  empty : ∀ name, start.functions.find? name = none
  /-- The names of the entries are different. -/
  distinct : (entries.map FunctionEntry.name).Nodup
  /-- No constant has the name of an entry. -/
  apart : ∀ entry ∈ entries, start.constants.find? entry.name = none
  /-- Every definition is that of its entry. -/
  faithful : Faithful start entries

/-- The first part of a part of a list is a part of it. -/
theorem subperm_left {entries done others : List FunctionEntry}
    (within : (done ++ others).Subperm entries) : done.Subperm entries :=
  (List.sublist_append_left done others).subperm.trans within

/-- Parts of a list of entries with different names have no name in common. -/
theorem name_ne_of_subperm {entries done pending : List FunctionEntry}
    (distinct : (entries.map FunctionEntry.name).Nodup)
    (within : (done ++ pending).Subperm entries) :
    ∀ earlier ∈ done, ∀ entry ∈ pending, earlier.name ≠ entry.name := by
  obtain ⟨part, same, sublist⟩ := within
  have partNames := (sublist.map FunctionEntry.name).nodup distinct
  have names := (same.map FunctionEntry.name).nodup_iff.mp partNames
  rw [List.map_append, List.nodup_append] at names
  intro earlier member entry waiting
  exact names.2.2 _ (List.mem_map_of_mem member) _ (List.mem_map_of_mem waiting)

namespace Loadable

variable {start context : Context} {entries done : List FunctionEntry}
  (loadable : Loadable start entries)

include loadable

/-- A definition that is accepted behind others defines the function of its entry. -/
theorem isDefinition_of_enter {earlier : List FunctionEntry} (within : earlier.Subperm entries)
    (applies : Applies start earlier context) {entry : FunctionEntry} (member : entry ∈ entries)
    {next : Context} {outcome : Outcome}
    (entered : context.enter entry.definition = .ok (next, outcome)) :
    ∃ right, IsDefinition entry.definition entry.name entry.parameters right ∧
      context.Accepts entry.name entry.parameters right ∧ outcome = .defined ∧
        next = context.defineFunction entry.name
          ⟨entry.parameters, right.relabel (.resolve context), trimMargins entry.definition⟩ := by
  cases parsed : context.parse entry.definition with
  | error rejection =>
    rw [context.enter_error parsed] at entered
    contradiction
  | ok tree =>
    obtain ⟨position, origin, place, arguments, body, rfl, names⟩ :=
      loadable.faithful earlier context within applies entry member tree parsed
    have defines : context.Defines entry.definition entry.name
        ⟨arguments.map Expr.rootText, body, trimMargins entry.definition⟩ :=
      ⟨⟨position, origin, place, arguments, parsed, rfl⟩, rfl⟩
    obtain ⟨right, definition, _, _⟩ := defines.exists_isDefinition
    have own : IsDefinition entry.definition entry.name entry.parameters right :=
      names ▸ definition
    exact ⟨right, own, (context.enter_definition_iff own next outcome).mp entered⟩

/-- Entries that are accepted one after the other lead to their context. -/
theorem reached (within : done.Subperm entries) (applies : Applies start done context) :
    Reached start done context := by
  have along (front more : List FunctionEntry) (middle : Context)
      (reached : Reached start front middle) (before : Applies start front middle)
      (after : Applies middle more context) (within : (front ++ more).Subperm entries) :
      Reached start (front ++ more) context := by
    induction more generalizing front middle with
    | nil =>
      cases after
      rwa [List.append_nil]
    | cons entry others ih =>
      cases after with
      | @cons _ next _ _ _ outcome entered rest =>
        have member : entry ∈ entries := within.subset (by simp)
        obtain ⟨right, definition, accepts, _, rfl⟩ :=
          loadable.isDefinition_of_enter (subperm_left within) before member entered
        have fresh : middle.functions.contains entry.name = false := by
          rw [Bool.eq_false_iff]
          intro there
          obtain ⟨earlier, listed, same⟩ := reached.only entry.name there
          exact name_ne_of_subperm loadable.distinct within earlier listed entry
            List.mem_cons_self same
        have next := reached.snoc fresh (loadable.apart entry member) definition accepts
        have all : front ++ entry :: others = (front ++ [entry]) ++ others := by simp
        rw [all] at within ⊢
        exact ih (front ++ [entry]) _ next (before.snoc entered) rest within
  have empty : Reached start [] start := by
    refine ⟨rfl, fun name there => ?_, nofun⟩
    rw [Table.contains, loadable.empty name] at there
    contradiction
  exact along [] done start empty (.nil start) applies within

/-- A pending entry is not defined yet. -/
theorem fresh {pending : List FunctionEntry} (within : (done ++ pending).Subperm entries)
    (applies : Applies start done context) {entry : FunctionEntry} (waiting : entry ∈ pending) :
    context.functions.contains entry.name = false := by
  rw [Bool.eq_false_iff]
  intro there
  obtain ⟨earlier, listed, same⟩ :=
    (loadable.reached (subperm_left within) applies).only entry.name there
  exact name_ne_of_subperm loadable.distinct within earlier listed entry waiting same

/-- A round of tries ends, whatever is pending. The accepted definitions are entered one after the
other, the others are refused, and if none is accepted, all are refused in the same context. -/
theorem exists_round {pending : List FunctionEntry} (within : (done ++ pending).Subperm entries)
    (applies : Applies start done context) :
    ∃ next accepted refused, defineRound context pending = .ok (next, refused) ∧
      Applies start (done ++ accepted) next ∧
      (accepted ++ refused.map Prod.fst).Perm pending ∧
      (accepted = [] → next = context ∧
        ∀ entry ∈ pending, (context.enter entry.definition).isOk = false) := by
  induction pending generalizing context done with
  | nil =>
    refine ⟨context, [], [], rfl, ?_, .nil, fun _ => ⟨rfl, List.forall_mem_nil _⟩⟩
    rwa [List.append_nil]
  | cons entry others ih =>
    rw [defineRound]
    cases entered : context.enter entry.definition with
    | error rejection =>
      have part : (done ++ others).Subperm entries :=
        ((List.sublist_cons_self entry others).append_left done).subperm.trans within
      obtain ⟨next, accepted, refused, round, applied, same, idle⟩ := ih part applies
      refine ⟨next, accepted, (entry, rejection) :: refused, ?_, applied, ?_, fun empty => ?_⟩
      · show defineRound context others >>= _ = _
        rw [round]
        rfl
      · exact List.perm_middle.trans (same.cons entry)
      · obtain ⟨unchanged, all⟩ := idle empty
        refine ⟨unchanged, List.forall_mem_cons.mpr ⟨?_, all⟩⟩
        rw [entered]
        rfl
    | ok result =>
      obtain ⟨middle, outcome⟩ := result
      have member : entry ∈ entries := within.subset (by simp)
      obtain ⟨right, _, _, rfl, same⟩ :=
        loadable.isDefinition_of_enter (subperm_left within) applies member entered
      have met : entry.metBy middle .defined = true := by
        rw [FunctionEntry.metBy, same, Context.defineFunction, Table.find?_insert, if_pos rfl]
        exact beq_self_eq_true entry.parameters
      have all : done ++ entry :: others = (done ++ [entry]) ++ others := by simp
      rw [all] at within
      obtain ⟨next, accepted, refused, round, applied, perm, _⟩ :=
        ih within (applies.snoc entered)
      refine ⟨next, entry :: accepted, refused, ?_, ?_, perm.cons entry,
        fun empty => absurd empty (List.cons_ne_nil _ _)⟩
      · simp only [met, if_true]
        exact round
      · rwa [List.append_assoc] at applied

/-- What is loaded is what the pending entries lead to in some order. -/
theorem exists_order {pending : List FunctionEntry} {last : Context}
    (within : (done ++ pending).Subperm entries) (applies : Applies start done context)
    (loaded : defineAll context pending = .ok last) :
    ∃ order, order.Perm pending ∧ Applies start (done ++ order) last := by
  induction context, pending using defineAll.induct generalizing done with
  | case1 context pending ih =>
    obtain ⟨next, accepted, refused, round, applied, same, _⟩ :=
      loadable.exists_round within applies
    rw [defineAll, round] at loaded
    simp only [bind, Except.bind] at loaded
    split at loaded
    · next fewer =>
      have later : (done ++ accepted ++ refused.map Prod.fst).Subperm entries := by
        rw [List.append_assoc]
        exact (same.append_left done).subperm.trans within
      obtain ⟨order, perm, entered⟩ := ih next refused fewer later applied loaded
      refine ⟨accepted ++ order, (perm.append_left accepted).trans same, ?_⟩
      rwa [List.append_assoc] at entered
    · cases ends : refused.getLast? with
      | some refusal =>
        rw [ends] at loaded
        contradiction
      | none =>
        rw [ends] at loaded
        obtain rfl := Except.ok.inj loaded
        obtain rfl := List.getLast?_eq_none_iff.mp ends
        rw [List.map_nil, List.append_nil] at same
        exact ⟨accepted, same, applied⟩

/-- Where all pending entries are refused, an order in which all entries are accepted has no entry
that is pending: the first of them would be accepted. -/
theorem subset_of_refused {pending : List FunctionEntry} {final : Context}
    (all : (done ++ pending).Perm entries) (applies : Applies start done context)
    (refused : ∀ entry ∈ pending, (context.enter entry.definition).isOk = false)
    {front back : List FunctionEntry} {middle : Context} (before : Applies start front middle)
    (after : Applies middle back final) (order : (front ++ back).Perm entries)
    (earlier : front ⊆ done) : back ⊆ done := by
  induction back generalizing front middle with
  | nil => exact List.nil_subset done
  | cons entry others ih =>
    cases after with
    | @cons _ next _ _ _ outcome entered rest =>
      have member : entry ∈ entries := order.subset (by simp)
      have frontWithin : front.Subperm entries := subperm_left order.subperm
      have doneWithin : done.Subperm entries := subperm_left all.subperm
      have known : entry ∈ done := by
        rcases List.mem_append.mp (all.mem_iff.mpr member) with known | waiting
        · exact known
        · obtain ⟨right, definition, accepts, _, _⟩ :=
            loadable.isDefinition_of_enter frontWithin before member entered
          have fresh := loadable.fresh all.subperm applies waiting
          have also := (loadable.reached frontWithin before).accepts_mono
            (loadable.reached doneWithin applies) earlier fresh accepts
          have accepted := (context.enter_definition_iff definition _ _).mpr ⟨also, rfl, rfl⟩
          have refusal := refused entry waiting
          rw [accepted] at refusal
          contradiction
      have grown : front ++ [entry] ⊆ done :=
        List.append_subset.mpr ⟨earlier, List.cons_subset.mpr ⟨known, List.nil_subset done⟩⟩
      have others := ih (before.snoc entered) rest (by simpa using order) grown
      exact List.cons_subset.mpr ⟨known, others⟩

/-- Loading succeeds if all entries are accepted in some order. -/
theorem exists_defineAll {order pending : List FunctionEntry} {final : Context}
    (perm : order.Perm entries) (whole : Applies start order final)
    (all : (done ++ pending).Perm entries) (applies : Applies start done context) :
    ∃ last, defineAll context pending = .ok last := by
  induction context, pending using defineAll.induct generalizing done with
  | case1 context pending ih =>
    obtain ⟨next, accepted, refused, round, applied, same, idle⟩ :=
      loadable.exists_round all.subperm applies
    rw [defineAll, round]
    simp only [bind, Except.bind]
    split
    · next fewer =>
      have later : (done ++ accepted ++ refused.map Prod.fst).Perm entries := by
        rw [List.append_assoc]
        exact (same.append_left done).trans all
      exact ih next refused fewer later applied
    · next notFewer =>
      have count := same.length_eq
      rw [List.length_append, List.length_map] at count
      have empty : accepted = [] := List.eq_nil_of_length_eq_zero (by omega)
      obtain ⟨rfl, stuck⟩ := idle empty
      have known : order ⊆ done :=
        loadable.subset_of_refused all applies stuck (.nil start) whole perm (List.nil_subset done)
      have nothing : pending = [] := by
        rw [List.eq_nil_iff_forall_not_mem]
        intro entry waiting
        have member : entry ∈ entries := all.subset (List.mem_append_right done waiting)
        have done := known (perm.mem_iff.mpr member)
        exact name_ne_of_subperm loadable.distinct all.subperm entry done entry waiting rfl
      have ended : refused = [] := by
        rw [nothing, List.length_nil] at count
        exact List.eq_nil_of_length_eq_zero (by omega)
      rw [ended]
      exact ⟨_, rfl⟩

/-- All orders lead to the same context. -/
theorem applies_unique {first second : List FunctionEntry} {last other : Context}
    (perm : first.Perm entries) (also : second.Perm entries) (applies : Applies start first last)
    (alsoApplies : Applies start second other) : last = other := by
  apply (loadable.reached perm.subperm applies).eq (loadable.reached also.subperm alsoApplies)
  exact fun entry => perm.mem_iff.trans also.mem_iff.symm

end Loadable

/-- A round leaves entries to be tried again: it has accepted one of the pending entries, but not
all of them. The pairs are the context and the pending entries behind the round and in front of it.
-/
def Retries (later earlier : Context × List FunctionEntry) : Prop :=
  ∃ refused, defineRound earlier.1 earlier.2 = .ok (later.1, refused) ∧
    later.2 = refused.map Prod.fst ∧ later.2 ≠ [] ∧ later.2.length ≠ earlier.2.length

/-- No more entries are refused than are pending. -/
theorem length_refused_le {context next : Context} {pending : List FunctionEntry}
    {refused : List (FunctionEntry × Rejection)}
    (round : defineRound context pending = .ok (next, refused)) :
    refused.length ≤ pending.length := by
  induction pending generalizing context refused with
  | nil =>
    obtain ⟨_, rfl⟩ := Prod.mk.inj (Except.ok.inj round)
    exact Nat.le_refl 0
  | cons entry others ih =>
    rw [defineRound] at round
    cases entered : context.enter entry.definition with
    | error rejection =>
      rw [entered] at round
      obtain ⟨⟨last, further⟩, rest, same⟩ := (bind_eq_ok_iff ..).mp round
      obtain ⟨rfl, rfl⟩ := Prod.mk.inj (Except.ok.inj same)
      exact Nat.succ_le_succ (ih rest)
    | ok result =>
      obtain ⟨middle, outcome⟩ := result
      simp only [entered] at round
      split at round
      · exact Nat.le_succ_of_le (ih round)
      · contradiction

/-- Fewer entries are left to be tried again. -/
theorem Retries.length_lt {later earlier : Context × List FunctionEntry}
    (retries : Retries later earlier) : later.2.length < earlier.2.length := by
  obtain ⟨refused, round, pending, _, different⟩ := retries
  have fewer := length_refused_le round
  have count : later.2.length = refused.length := by rw [pending, List.length_map]
  omega

/-- Where entries are left to be tried again, loading goes on with them. -/
theorem defineAll_of_retries {later earlier : Context × List FunctionEntry}
    (retries : Retries later earlier) :
    defineAll earlier.1 earlier.2 = defineAll later.1 later.2 := by
  have less := retries.length_lt
  obtain ⟨refused, round, pending, _, _⟩ := retries
  rw [pending, List.length_map] at less
  rw [defineAll, round, pending]
  simp only [bind, Except.bind, if_pos less]

/-- Entries are not tried again forever, whatever the entries and the context are. -/
theorem wellFounded_retries : WellFounded Retries := by
  have lengths : WellFounded (InvImage (· < ·)
      fun state : Context × List FunctionEntry => state.2.length) := InvImage.wf _ Nat.lt_wfRel.wf
  exact Subrelation.wf Retries.length_lt lengths

/-- What the last round of tries comes to: it has refused nothing, or loading fails with the last
report. -/
def lastRound (round : Context × List (FunctionEntry × Rejection)) : Except DocumentError Context :=
  match round.2.getLast? with
  | none => .ok round.1
  | some (_, rejection) => .error (.refused rejection)

/-- Where no entries are tried again, the round is the last one. -/
theorem defineAll_of_not_retries {context : Context} {pending : List FunctionEntry}
    (ends : ∀ later, ¬ Retries later (context, pending)) :
    defineAll context pending = defineRound context pending >>= lastRound := by
  cases round : defineRound context pending with
  | error =>
    rw [defineAll, round]
    rfl
  | ok outcome =>
    obtain ⟨next, refused⟩ := outcome
    have nothing : refused.length < pending.length → refused = [] := by
      intro fewer
      by_contra left
      have waiting : refused.map Prod.fst ≠ [] := mt List.map_eq_nil_iff.mp left
      have different : (refused.map Prod.fst).length ≠ pending.length := by
        rw [List.length_map]
        exact Nat.ne_of_lt fewer
      exact ends (next, refused.map Prod.fst) ⟨refused, round, rfl, waiting, different⟩
    have last : defineAll context pending =
        if refused.length < pending.length then defineAll next (refused.map Prod.fst)
        else lastRound (next, refused) := by
      rw [defineAll, round]
      rfl
    rw [last]
    split
    · next fewer =>
      obtain rfl := nothing fewer
      rw [List.map_nil, defineAll]
      rfl
    · rfl

/-- The rounds of tries that load the functions of a document: every round is the last one, or the
entries that it refuses are tried again. -/
theorem defineAll_cases (context : Context) (pending : List FunctionEntry) :
    (∃ later, Retries later (context, pending) ∧
        defineAll context pending = defineAll later.1 later.2) ∨
      defineAll context pending = defineRound context pending >>= lastRound := by
  by_cases ends : ∀ later, ¬ Retries later (context, pending)
  · exact Or.inr (defineAll_of_not_retries ends)
  · simp only [not_forall, not_not] at ends
    obtain ⟨later, retries⟩ := ends
    exact Or.inl ⟨later, retries, defineAll_of_retries retries⟩

/-- The parts of a document: the context of its constants, if they pass the checks, and its
functions, if they are well typed. -/
def parts (document : Json) : Except DocumentError (Context × List FunctionEntry) := do
  let root ← objectOf "root" document
  let constants ← member none root "constants"
  let functions ← member none root "functions"
  let constants ← objectOf "constants" constants
  let functions ← objectOf "functions" functions
  let context ← constants.foldlM addConstant {}
  let entries ← functions.mapM toFunctionEntry
  return (context, entries)

/-- A document is loaded by defining its functions behind its constants. -/
theorem toContext_eq_parts (document : Json) :
    toContext document = parts document >>= fun (start, entries) => defineAll start entries := by
  simp only [toContext, parts, bind_assoc, pure_bind]

/-- An object has its members. -/
theorem eq_object_of_objectOf {name : String} {value : Json} {members : List (String × Json)}
    (found : objectOf name value = .ok members) : value = .object members := by
  cases value with
  | object listed => exact congrArg Json.object (Except.ok.inj found)
  | null | bool | number | string | array => contradiction

/-- A member is found under its name. -/
theorem lookup_of_member {owner : Option String} {members : List (String × Json)} {name : String}
    {value : Json} (found : member owner members name = .ok value) :
    members.lookup name = some value := by
  unfold member at found
  cases held : members.lookup name with
  | some other =>
    rw [held] at found
    exact congrArg some (Except.ok.inj found)
  | none =>
    rw [held] at found
    cases owner <;> contradiction

/-- An entry has the name that it is found under. -/
theorem name_of_toFunctionEntry {member : String × Json} {entry : FunctionEntry}
    (described : toFunctionEntry member = .ok entry) : entry.name = member.1 := by
  simp only [toFunctionEntry, bind_eq_ok_iff] at described
  obtain ⟨_, _, _, _, _, _, _, _, _, _, _, _, same⟩ := described
  obtain rfl := Except.ok.inj same
  rfl

/-- Entries have the names that they are found under. -/
theorem names_of_toFunctionEntry {members : List (String × Json)} {entries : List FunctionEntry}
    (described : members.mapM toFunctionEntry = .ok entries) :
    entries.map FunctionEntry.name = members.map Prod.fst := by
  have each := (mapM_eq_ok_iff ..).mp described
  clear described
  induction each with
  | nil => rfl
  | cons head _ ih => rw [List.map_cons, List.map_cons, name_of_toFunctionEntry head, ih]

/-- Constants define no functions. -/
theorem functions_of_addConstants {constants : List (String × Json)} {context start : Context}
    (fresh : context.functions = .empty)
    (added : constants.foldlM addConstant context = .ok start) : start.functions = .empty := by
  have keeps (context : Context) (entry : String × Json) (next : Context)
      (fresh : context.functions = .empty) (taken : addConstant context entry = .ok next) :
      next.functions = .empty := by
    obtain ⟨_, value, _, rfl⟩ := (addConstant_eq_ok_iff ..).mp taken
    rw [Context.defineConstant, fresh]
    rfl
  exact of_foldlM_eq_ok keeps fresh added

/-- The functions of a document have different names, and the constants define none. -/
theorem parts_spec {document : Json} {start : Context} {entries : List FunctionEntry}
    (ascending : document.Ascending) (described : parts document = .ok (start, entries)) :
    start.functions = .empty ∧ (entries.map FunctionEntry.name).Nodup := by
  simp only [parts, bind_eq_ok_iff] at described
  obtain ⟨root, isRoot, _, _, functions, hasFunctions, _, _, members, areFunctions, context,
    added, listed, isListed, same⟩ := described
  obtain ⟨rfl, rfl⟩ := Prod.mk.inj (Except.ok.inj same)
  rw [eq_object_of_objectOf isRoot] at ascending
  have inside := ascending.of_lookup (lookup_of_member hasFunctions)
  rw [eq_object_of_objectOf areFunctions] at inside
  refine ⟨functions_of_addConstants rfl added, ?_⟩
  rw [names_of_toFunctionEntry isListed]
  exact inside.nodup

/-- Loading is complete and does not depend on the order of the entries: it succeeds exactly if the
definitions are accepted one after the other in some order behind the constants, and it leads to the
context of every such order. Rounds of tries come to an end: every round is the last one or is
followed by another, and none is followed by others forever. -/
theorem toContext_iff_exists_order {document : Json} {start : Context}
    {entries : List FunctionEntry} (ascending : document.Ascending)
    (described : parts document = .ok (start, entries))
    (apart : ∀ entry ∈ entries, start.constants.find? entry.name = none)
    (faithful : Faithful start entries) :
    ((∃ loaded, toContext document = .ok loaded) ↔
        ∃ order last, order.Perm entries ∧ Applies start order last) ∧
      (∀ loaded, toContext document = .ok loaded → ∀ order last, order.Perm entries →
        Applies start order last → loaded = last) ∧
      toContext document = defineAll start entries ∧
      (∀ context pending,
        (∃ later, Retries later (context, pending) ∧
            defineAll context pending = defineAll later.1 later.2) ∨
          defineAll context pending = defineRound context pending >>= lastRound) ∧
      WellFounded Retries := by
  obtain ⟨fresh, distinct⟩ := parts_spec ascending described
  have loadable : Loadable start entries :=
    ⟨fun name => by rw [fresh, Table.find?_empty], distinct, apart, faithful⟩
  have defined : toContext document = defineAll start entries := by
    rw [toContext_eq_parts, described]
    rfl
  have begins : ([] ++ entries).Perm entries := .refl entries
  have ordered {loaded : Context} (succeeds : toContext document = .ok loaded) :
      ∃ order, order.Perm entries ∧ Applies start order loaded := by
    rw [defined] at succeeds
    exact loadable.exists_order begins.subperm (.nil start) succeeds
  refine ⟨⟨?_, ?_⟩, ?_, defined, defineAll_cases, wellFounded_retries⟩
  · rintro ⟨loaded, succeeds⟩
    obtain ⟨order, perm, applies⟩ := ordered succeeds
    exact ⟨order, loaded, perm, applies⟩
  · rintro ⟨order, last, perm, applies⟩
    rw [defined]
    exact loadable.exists_defineAll perm applies begins (.nil start)
  · intro loaded succeeds order last perm applies
    obtain ⟨found, alsoPerm, alsoApplies⟩ := ordered succeeds
    exact loadable.applies_unique alsoPerm perm alsoApplies applies

/-- A document with these constants, by their types and parts, and these functions, by their
definitions and parameters. -/
def listing (constants : List (String × String × Binary64 × Binary64))
    (functions : List (String × String × List String)) : Json :=
  let constant (kind : String) (re im : Binary64) : Json :=
    .ofMembers [("type", .string kind), ("re", .number re), ("im", .number im)]
  let function (definition : String) (parameters : List String) : Json :=
    .ofMembers [("definition", .string definition), ("args", .array (parameters.map .string))]
  .ofMembers
    [("constants",
        .ofMembers (constants.map fun (name, kind, re, im) => (name, constant kind re im))),
      ("functions", .ofMembers (functions.map fun (name, definition, parameters) =>
        (name, function definition parameters)))]

/-- The members of such a document are in ascending order. -/
theorem ascending_listing (constants : List (String × String × Binary64 × Binary64))
    (functions : List (String × String × List String)) :
    (listing constants functions).Ascending := by
  have constant (kind : String) (re im : Binary64) : (Json.ofMembers
      [("type", .string kind), ("re", .number re), ("im", .number im)]).Ascending :=
    Json.ascending_ofMembers (by simp [Json.Ascending.string, Json.Ascending.number])
  have texts (parameters : List String) : (Json.array (parameters.map .string)).Ascending :=
    .array (List.forall_mem_map.mpr fun parameter _ => .string parameter)
  have function (definition : String) (parameters : List String) : (Json.ofMembers
      [("definition", .string definition),
        ("args", .array (parameters.map .string))]).Ascending :=
    Json.ascending_ofMembers (by simp [Json.Ascending.string, texts])
  have first : (Json.ofMembers (constants.map fun (name, kind, re, im) => (name, Json.ofMembers
      [("type", .string kind), ("re", .number re), ("im", .number im)]))).Ascending :=
    Json.ascending_ofMembers (List.forall_mem_map.mpr fun _ _ => constant ..)
  have second : (Json.ofMembers (functions.map fun (name, definition, parameters) =>
      (name, Json.ofMembers [("definition", .string definition),
        ("args", .array (parameters.map .string))]))).Ascending :=
    Json.ascending_ofMembers (List.forall_mem_map.mpr fun _ _ => function ..)
  exact Json.ascending_ofMembers
    (List.forall_mem_cons.mpr ⟨first, List.forall_mem_singleton.mpr second⟩)

/-- A document with a function in front of the one that it calls. -/
def crossedDocument : Json :=
  listing [("k", "Real", 2, 0)] [("a", "a(x)=b(x)+k", ["x"]), ("b", "b(x)=x*x", ["x"])]

/-- The functions of the document. -/
def crossedEntries : List FunctionEntry :=
  [⟨"a", "a(x)=b(x)+k", ["x"]⟩, ⟨"b", "b(x)=x*x", ["x"]⟩]

/-- The definitions of the document are those of its entries. -/
theorem faithful_crossed (start : Context) : Faithful start crossedEntries := by
  intro earlier context _ _ entry member tree parsed
  obtain ⟨plain, read, rfl⟩ :=
    (context.tree_eq_ok_iff ..).mp ((context.parse_eq_ok_iff ..).mp parsed).1
  have first : Context.lineTree "a(x)=b(x)+k" = .ok
      (.binary .assign 4 (.call .unknown "a" 0 [.constant .unknown "x" 2])
        (.binary .add 9 (.call .unknown "b" 5 [.constant .unknown "x" 7])
          (.constant .unknown "k" 10))) := by
    with_unfolding_all rfl
  have second : Context.lineTree "b(x)=x*x" = .ok
      (.binary .assign 4 (.call .unknown "b" 0 [.constant .unknown "x" 2])
        (.binary .mul 6 (.constant .unknown "x" 5) (.constant .unknown "x" 7))) := by
    with_unfolding_all rfl
  rcases List.mem_cons.mp member with rfl | other
  · obtain rfl := Except.ok.inj (first.symm.trans read)
    exact ⟨_, _, _, _, _, rfl, rfl⟩
  · obtain rfl := List.mem_singleton.mp other
    obtain rfl := Except.ok.inj (second.symm.trans read)
    exact ⟨_, _, _, _, _, rfl, rfl⟩

/-- The document is loaded, though its first function cannot be defined at first. -/
theorem crossedDocument_loads : crossedDocument.Ascending ∧
    ∃ start, parts crossedDocument = .ok (start, crossedEntries) ∧
      (∀ entry ∈ crossedEntries, start.constants.find? entry.name = none) ∧
      Faithful start crossedEntries ∧ (start.enter "a(x)=b(x)+k").isOk = false ∧
      ∃ loaded, toContext crossedDocument = .ok loaded ∧
        ∃ order, order.Perm crossedEntries ∧ Applies start order loaded := by
  have ascending : crossedDocument.Ascending := ascending_listing ..
  have checks : (parts crossedDocument).map (fun (start, entries) =>
      (decide (entries = crossedEntries ∧
          ∀ entry ∈ crossedEntries, start.constants.find? entry.name = none) &&
        !(start.enter "a(x)=b(x)+k").isOk)) = .ok true := by
    decide +kernel
  have succeeds : (toContext crossedDocument).isOk = true := by decide +kernel
  refine ⟨ascending, ?_⟩
  cases described : parts crossedDocument with
  | error fault =>
    rw [described] at checks
    cases checks
  | ok found =>
    obtain ⟨start, entries⟩ := found
    rw [described] at checks
    have checked := Except.ok.inj checks
    simp only [Bool.and_eq_true, decide_eq_true_eq, Bool.not_eq_true'] at checked
    obtain ⟨⟨rfl, apart⟩, refused⟩ := checked
    obtain ⟨complete, unique, _⟩ :=
      toContext_iff_exists_order ascending described apart (faithful_crossed start)
    refine ⟨start, rfl, apart, faithful_crossed start, refused, ?_⟩
    cases result : toContext crossedDocument with
    | error fault =>
      rw [result] at succeeds
      cases succeeds
    | ok loaded =>
      obtain ⟨order, last, perm, applies⟩ := complete.mp ⟨loaded, result⟩
      obtain rfl := unique loaded result order last perm applies
      exact ⟨loaded, rfl, order, perm, applies⟩

end Document

end Reckoner
