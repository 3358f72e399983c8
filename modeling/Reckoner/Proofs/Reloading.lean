import Mathlib.Data.List.Infix
import Reckoner.Proofs.Loading
import Reckoner.Proofs.Naming
/-!
# Loading what was saved

A context that is loaded from the document of another one is like it, so the two cannot be told
apart by any lines. Not every document can be loaded: a stored body may use a name that was removed
since. After lines and removals that leave no built-in name to the user, loading succeeds exactly if
every name of every stored body is still defined, with as many parameters as its calls have
arguments.
-/

namespace Reckoner.Context

/-- A run that leaves two functions. The one that is listed first calls the other one, and the name
of a parameter was a constant when the functions were defined. -/
def parameterRun : List Change :=
  [.enter "t = 2", .enter "sq(t) = t*t", .enter " a(x, t) = sq(x) + t\t", .enter "a(3, 1)",
    .remove "t"]

/-- A context that is loaded from the document of another one has the same constants and alike
functions, and all further lines are answered alike. -/
theorem alike_and_same_replies_of_reloaded (changes : List Change) {loaded : Context}
    (succeeds : Document.toContext (Document.ofContext (run changes)) = .ok loaded) :
    (run changes).Alike loaded ∧ ∀ lines, (run changes).replies lines = loaded.replies lines := by
  have stores := kept_stores.run changes
  have acyclic := kept_acyclic.run changes
  obtain ⟨alike, _, _⟩ := Document.alike_of_toContext stores acyclic succeeds
  exact ⟨alike, alike.replies_eq acyclic⟩

/-- The document of such a run is loaded, and the context it gives answers alike. -/
theorem alike_of_reloaded_parameterRun : ∃ loaded,
    Document.toContext (Document.ofContext (run parameterRun)) = .ok loaded ∧
      (run parameterRun).Alike loaded ∧
      ∀ lines, (run parameterRun).replies lines = loaded.replies lines := by
  have succeeds : (Document.toContext (Document.ofContext (run parameterRun))).isOk = true := by
    decide +kernel
  cases result : Document.toContext (Document.ofContext (run parameterRun)) with
  | error fault =>
    rw [result] at succeeds
    contradiction
  | ok loaded => exact ⟨loaded, rfl, alike_and_same_replies_of_reloaded parameterRun result⟩

/-- No constant or function of the user has the name of a built-in one. -/
def Unshadowed (context : Context) : Prop :=
  (∀ entry ∈ context.constants.entries,
      builtInConstant? entry.1 = none ∧ BuiltIn.ofName? entry.1 = none) ∧
    ∀ entry ∈ context.functions.entries,
      builtInConstant? entry.1 = none ∧ BuiltIn.ofName? entry.1 = none

instance (context : Context) : Decidable context.Unshadowed :=
  inferInstanceAs (Decidable (_ ∧ _))

/-- Without built-in names among those of the user, what lines and removals leave can be loaded from
its document exactly if all bodies are resolved. -/
theorem reloads_iff_complete {changes : List Change} (typed : ∀ change ∈ changes, change.IsTyped)
    (unshadowed : (run changes).Unshadowed) :
    (∃ loaded, Document.toContext (Document.ofContext (run changes)) = .ok loaded) ↔
      (run changes).Complete := by
  have stores := kept_stores.run changes
  have acyclic := kept_acyclic.run changes
  constructor
  · rintro ⟨loaded, succeeds⟩
    obtain ⟨_, complete, _⟩ := Document.alike_of_toContext stores acyclic succeeds
    exact complete
  · intro complete
    refine Document.exists_toContext stores acyclic complete fun name number found => ?_
    obtain ⟨spelled, noConstant⟩ := namesConstants_run typed name number found
    obtain ⟨_, noFunction⟩ := unshadowed.1 _ ((Table.find?_eq_some_iff ..).mp found)
    exact ⟨spelled, noConstant, noFunction⟩

/-- The functions of a run may use each other and be listed in the wrong order. -/
theorem parameterRun_reloads :
    (∀ change ∈ parameterRun, change.IsTyped) ∧ (run parameterRun).Unshadowed ∧
      (run parameterRun).Complete ∧
      ∃ loaded, Document.toContext (Document.ofContext (run parameterRun)) = .ok loaded := by
  have typed : ∀ change ∈ parameterRun, change.IsTyped := by simp [parameterRun, Change.IsTyped]
  have unshadowed : (run parameterRun).Unshadowed := by decide +kernel
  have complete : (run parameterRun).Complete := by decide +kernel
  exact ⟨typed, unshadowed, complete, (reloads_iff_complete typed unshadowed).mpr complete⟩

/-- A run that removes a name which a stored body uses. -/
def removalRun : List Change := [.enter "a=2", .enter "f(x)=a*x", .remove "a"]

/-- The document of a function whose constant has been removed cannot be loaded, though no built-in
name was ever one of the user. -/
theorem not_every_run_reloads :
    ¬ ∀ changes : List Change, (∀ change ∈ changes, change.IsTyped) →
      (∀ earlier, earlier <+: changes → (run earlier).Unshadowed) →
      ∃ loaded, Document.toContext (Document.ofContext (run changes)) = .ok loaded := by
  intro every
  have typed : ∀ change ∈ removalRun, change.IsTyped := by simp [removalRun, Change.IsTyped]
  have unshadowed : ∀ earlier ∈ removalRun.inits, (run earlier).Unshadowed := by decide +kernel
  have fails : (Document.toContext (Document.ofContext (run removalRun))).isOk = false := by
    decide +kernel
  obtain ⟨loaded, succeeds⟩ := every removalRun typed fun earlier isPrefix =>
    unshadowed earlier ((List.mem_inits ..).mpr isPrefix)
  rw [succeeds] at fails
  contradiction

end Reckoner.Context
