import Reckoner.Proofs.Changes
import Reckoner.Session.Console
/-!
# Sessions on a disk

A line may read or write a file, and how that ends is up to the disk. Whatever the disk does, a line
changes the context of its session like a line that is entered, a name that is removed or a document
that is loaded, or not at all. So what such changes keep, the context of every session has.
-/

namespace Reckoner

/-- What a line meets outside of its session. -/
structure Disk where
  /-- The library for JSON. -/
  json : Json.Library
  /-- The text of a file, if it can be opened. -/
  read? : String → Option String
  /-- What comes of writing a text to a file. -/
  write : String → String → Written

/-- A disk on which no file can be opened, with a library that reads nothing. -/
def Disk.closed : Disk where
  json := ⟨fun _ => .refused "", fun _ => ""⟩
  read? _ := none
  write _ _ := .unopened

/-- The result of a task on a disk. -/
def FileTask.on {α : Type} (task : FileTask α) (disk : Disk) : α :=
  match task with
  | .done result => result
  | .read path next => next (disk.read? path)
  | .write path text next => next (disk.write path text)

/-- What a line meets when it is carried out on a host. -/
def Host.disk {σ : Type} (host : Host σ) (files : σ) : Disk where
  json := host.json
  read? := host.system.read? files
  write path text := (host.system.write files path text).1

/-- A task that is carried out in a file system has its result on the disk of that state. -/
theorem Host.perform_fst {σ α : Type} (host : Host σ) (files : σ) (task : FileTask α) :
    (host.system.perform files task).1 = task.on (host.disk files) := by
  cases task <;> rfl

namespace Session

/-- The session after a line. A line that fails leaves it as it is. -/
def after (session : Session) (disk : Disk) (line : String) : Session :=
  match (session.enter disk.json line).on disk with
  | .ok (next, _) => next
  | .error _ => session

/-- The session after some lines, each with the disk that it meets. -/
def follow (session : Session) (inputs : List (Disk × String)) : Session :=
  inputs.foldl (fun session input => session.after input.1 input.2) session

/-- The session that begins with some settings, after some lines. -/
def visit (settings : Settings) (inputs : List (Disk × String)) : Session :=
  follow { settings := settings } inputs

/-- What a command that succeeds makes of a session. -/
inductive Executes (session : Session) (disk : Disk) : Command → Session → Prop
  /-- The session is to end. -/
  | exit : Executes session disk .exit { session with finished := true }
  /-- The context is saved. -/
  | save (path : Option String) : Executes session disk (.save path) session
  /-- A context is loaded. -/
  | load {path : Option String} {text : String} {context : Context}
    (read : disk.read? (path.getD session.settings.contextPath) = some text)
    (loaded : Document.load disk.json text = .ok context) :
    Executes session disk (.load path) { session with context := context }
  /-- Numbers are shown in another way. -/
  | format (radix : Radix) (precision : Option Precision) :
    Executes session disk (.format radix precision) (session.withFormat radix precision)
  /-- The definitions are shown. -/
  | info : Executes session disk .info session
  /-- A definition is removed. -/
  | remove {name : String} {context : Context}
    (removed : session.context.remove? name = some context) :
    Executes session disk (.remove name) { session with context := context }

/-- A command that succeeds is executed. -/
theorem executes_of_run {session next : Session} {command : Command} {disk : Disk} {reply : Reply}
    (succeeds : (session.run disk.json command).on disk = .ok (next, reply)) :
    session.Executes disk command next := by
  cases command with
  | exit =>
    obtain ⟨rfl, _⟩ := Prod.mk.inj (Except.ok.inj succeeds)
    exact .exit
  | format radix precision =>
    obtain ⟨rfl, _⟩ := Prod.mk.inj (Except.ok.inj succeeds)
    exact .format radix precision
  | info =>
    obtain ⟨rfl, _⟩ := Prod.mk.inj (Except.ok.inj succeeds)
    exact .info
  | save path =>
    simp only [run, FileTask.on] at succeeds
    split at succeeds
    · obtain ⟨rfl, _⟩ := Prod.mk.inj (Except.ok.inj succeeds)
      exact .save path
    · contradiction
    · contradiction
  | load path =>
    simp only [run, FileTask.on] at succeeds
    split at succeeds
    · contradiction
    · next text read =>
      split at succeeds
      · next context loaded =>
        obtain ⟨rfl, _⟩ := Prod.mk.inj (Except.ok.inj succeeds)
        exact .load read loaded
      · contradiction
      · contradiction
  | remove name =>
    simp only [run] at succeeds
    split at succeeds
    · next context removed =>
      obtain ⟨rfl, _⟩ := Prod.mk.inj (Except.ok.inj succeeds)
      exact .remove removed
    · contradiction

/-- A command that succeeds leaves the context as it is or changes it. -/
theorem exists_changes_of_run {session next : Session} {command : Command} {disk : Disk}
    {reply : Reply} (succeeds : (session.run disk.json command).on disk = .ok (next, reply)) :
    ∃ changes : List Change, (∀ change ∈ changes, change.InSession) ∧
      next.context = changes.foldl Context.after session.context := by
  cases executes_of_run succeeds with
  | exit | save | format | info => exact ⟨[], List.forall_mem_nil _, rfl⟩
  | load read loaded =>
    obtain ⟨document, _, described⟩ := Document.load_eq_ok_iff.mp loaded
    refine ⟨[.load document], List.forall_mem_singleton.mpr trivial, ?_⟩
    rw [List.foldl_cons, List.foldl_nil, Context.after, described]
  | @remove name context removed =>
    refine ⟨[.remove name], List.forall_mem_singleton.mpr trivial, ?_⟩
    rw [List.foldl_cons, List.foldl_nil, Context.after, removed, Option.getD_some]

/-- A line leaves the context as it is or changes it. -/
theorem exists_changes_after (session : Session) (disk : Disk) (line : String) :
    ∃ changes : List Change, (∀ change ∈ changes, change.InSession) ∧
      (session.after disk line).context = changes.foldl Context.after session.context := by
  cases result : (session.enter disk.json line).on disk with
  | error =>
    refine ⟨[], List.forall_mem_nil _, ?_⟩
    rw [after, result, List.foldl_nil]
  | ok answer =>
    obtain ⟨next, reply⟩ := answer
    rw [after, result]
    unfold enter at result
    split at result
    · refine ⟨[.enter line], List.forall_mem_singleton.mpr trivial, ?_⟩
      rw [List.foldl_cons, List.foldl_nil, Context.after]
      cases entered : session.context.enter line with
      | error =>
        simp only [FileTask.on, calculate, entered] at result
        contradiction
      | ok entry =>
        simp only [FileTask.on, calculate, entered] at result
        obtain ⟨rfl, _⟩ := Prod.mk.inj (Except.ok.inj result)
        rfl
    · split at result
      · exact exists_changes_of_run result
      · contradiction

/-- Lines leave the context as it is or change it. -/
theorem exists_changes_follow (session : Session) (inputs : List (Disk × String)) :
    ∃ changes : List Change, (∀ change ∈ changes, change.InSession) ∧
      (session.follow inputs).context = changes.foldl Context.after session.context := by
  induction inputs generalizing session with
  | nil => exact ⟨[], List.forall_mem_nil _, rfl⟩
  | cons input inputs ih =>
    obtain ⟨first, firstInSession, firstSame⟩ := session.exists_changes_after input.1 input.2
    obtain ⟨others, othersInSession, same⟩ := ih (session.after input.1 input.2)
    refine ⟨first ++ others, List.forall_mem_append.mpr ⟨firstInSession, othersInSession⟩, ?_⟩
    rw [List.foldl_append, ← firstSame, ← same]
    rfl

/-- The context of every session is one that changes of a session lead to. -/
theorem exists_changes_visit (settings : Settings) (inputs : List (Disk × String)) :
    ∃ changes : List Change, (∀ change ∈ changes, change.InSession) ∧
      (visit settings inputs).context = Context.run changes :=
  exists_changes_follow { settings := settings } inputs

end Session

end Reckoner
