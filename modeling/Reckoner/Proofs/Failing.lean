import Reckoner.Proofs.Sessions
/-!
# Lines that fail

The program carries a line out on the session itself: a command changes one setting after the other
and takes its arguments as they were typed. When such a line breaks off, what it has changed stays
changed. Since the arguments of a command are checked before anything is done, no command breaks off
behind a change, and a line that fails leaves the session as it was. This is so as well if the
library for JSON gives up on a file that is loaded. Its exception is the only one that is passed on,
and it comes from the library alone.
-/

namespace Reckoner

/-- A name cannot be removed exactly if the user has not defined it. -/
theorem Context.remove?_eq_none_iff (context : Context) (name : String) :
    context.remove? name = none ↔ context.constants.contains name = false ∧
      context.functions.contains name = false := by
  unfold remove?
  cases context.constants.contains name <;> cases context.functions.contains name <;> simp

/-- Loading gives up on a text exactly if the library does. -/
theorem Document.load_eq_aborted_iff {library : Json.Library} {text report : String} :
    load library text = .error (.aborted report) ↔ library.read text = .aborted report := by
  unfold load
  cases library.read text with
  | document document =>
    refine iff_of_false ?_ nofun
    cases described : toContext document <;> simp [Except.mapError, described]
  | refused report => simp
  | aborted report => simp

/-- Why a line that is carried out in place breaks off. -/
inductive Breakdown where
  /-- The line fails. -/
  | failure (failure : Failure)
  /-- A setting is refused. -/
  | settings (error : SettingsError)
  /-- The command has no argument of this number. -/
  | noArgument (index : Nat)
  /-- There is no form of numbers of this name. -/
  | noRadix (text : String)

/-- The line is refused by the calculator, by the check of a command or for a file. The console
reports this and goes on. -/
inductive Breakdown.IsReported : Breakdown → Prop
  /-- The calculator refuses the line. -/
  | rejected (rejection : Rejection) : IsReported (.failure (.rejected rejection))
  /-- A command is refused. -/
  | command (error : CommandError) : IsReported (.failure (.command error))
  /-- A context cannot be saved or loaded. -/
  | document (error : DocumentError) : IsReported (.failure (.document error))

/-- The library for JSON reads or refuses the files of the disk and does not give up on any. -/
def Disk.Answers (disk : Disk) : Prop :=
  ∀ path text, disk.read? path = some text → ∀ report, disk.json.read text ≠ .aborted report

/-- What is done to a session step by step. At a breakdown the session is what the steps in front of
it have made of it. -/
abbrev Work := EStateM Breakdown Session

namespace Invocation

/-- An argument, by its number. -/
def argument (invocation : Invocation) (index : Nat) : Work String :=
  match invocation.arguments[index]? with
  | some text => pure text
  | none => throw (.noArgument index)

/-- The file of a command: its argument, or that of the settings if there is none. -/
def path (invocation : Invocation) : Work String := do
  if invocation.arguments.isEmpty then return (← get).settings.contextPath
  invocation.argument 0

/-- Save the context. -/
def carryOutSave (invocation : Invocation) (disk : Disk) : Work Reply := do
  let path ← invocation.path
  match disk.write path (Document.save disk.json (← get).context ++ "\n") with
  | .whole => return .shown ("Saved context to " ++ quoted path ++ ".")
  | .unopened => throw (.failure (.document (.unwritable path)))
  | .broken => throw (.failure (.document (.unwritten path)))

/-- Load a context. -/
def carryOutLoad (invocation : Invocation) (disk : Disk) : Work Reply := do
  let path ← invocation.path
  match disk.read? path with
  | none => throw (.failure (.document (.unreadable path)))
  | some text =>
    match Document.load disk.json text with
    | .error (.refused error) => throw (.failure (.document error))
    | .error (.aborted report) => throw (.failure (.aborted report))
    | .ok context =>
      modify fun session => { session with context := context }
      return .shown ("Loaded context from " ++ quoted path ++ ".")

/-- Change how numbers are shown: first their form, and then the precision if there is a second
argument. -/
def carryOutFormat (invocation : Invocation) : Work Reply := do
  let text ← invocation.argument 0
  match Radix.ofName? text with
  | none => throw (.noRadix text)
  | some radix =>
    modify fun session => session.withFormat radix none
    if invocation.arguments.length = 2 then
      let text ← invocation.argument 1
      match Precision.ofText text with
      | .error error => throw (.settings error)
      | .ok precision =>
        modify fun session => session.withFormat session.settings.format.radix precision
    return .shown ""

/-- Remove a constant of the user or else a function. -/
def carryOutRemove (invocation : Invocation) : Work Reply := do
  let name ← invocation.argument 0
  let context := (← get).context
  if context.constants.contains name then
    modify fun session => { session with context := context.removeConstant name }
    return .shown ""
  if context.functions.contains name then
    modify fun session => { session with context := context.removeFunction name }
    return .shown ""
  throw (.failure (.command (.notDefined name)))

/-- Carry out a command with its arguments as they were typed. -/
def carryOut (invocation : Invocation) (disk : Disk) : Work Reply :=
  match invocation.verb with
  | .exit => do
    modify fun session => { session with finished := true }
    return .shown ""
  | .save => invocation.carryOutSave disk
  | .load => invocation.carryOutLoad disk
  | .format => invocation.carryOutFormat
  | .info => return .shown ((← get).context.describe (← get).settings.format)
  | .remove => invocation.carryOutRemove

end Invocation

namespace Session

/-- Give a line to the calculator. -/
def compute (line : String) : Work Reply := do
  let context := (← get).context
  match context.parse line with
  | .error rejection => throw (.failure (.rejected rejection))
  | .ok (.binary .assign _ left right) =>
    modify fun session => { session with context := context.applyDefinition line left right }
    return .outcome .defined
  | .ok expr =>
    let value := context.evaluate expr
    modify fun session => { session with context := context.keepAnswer value }
    return .outcome (.value value)

/-- Carry out a line: check the arguments if it is a command, and give it to the calculator if it is
none. -/
def process (disk : Disk) (line : String) : Work Reply :=
  match Invocation.ofLine? line with
  | none => compute line
  | some invocation =>
    match invocation.command with
    | .error error => throw (.failure (.command error))
    | .ok _ => invocation.carryOut disk

/-- What a result comes to in place: a failure keeps the session. -/
def Result.inPlace (session : Session) : Result → EStateM.Result Breakdown Session Reply
  | .ok (next, reply) => .ok reply next
  | .error failure => .error (.failure failure) session

end Session

namespace Invocation

/-- The arguments fit the command, which comes to this one. -/
inductive Checked : Invocation → Command → Prop
  /-- There is nothing to give. -/
  | exit : Checked ⟨.exit, []⟩ .exit
  /-- A file may be given. -/
  | save (path : Option String) : Checked ⟨.save, path.toList⟩ (.save path)
  /-- A file may be given. -/
  | load (path : Option String) : Checked ⟨.load, path.toList⟩ (.load path)
  /-- The name of a form of numbers is given. -/
  | format {text : String} {radix : Radix} (known : Radix.ofName? text = some radix) :
    Checked ⟨.format, [text]⟩ (.format radix none)
  /-- A precision is given as well. -/
  | precise {text digits : String} {radix : Radix} {precision : Precision}
    (known : Radix.ofName? text = some radix) (exact : Precision.ofText digits = .ok precision) :
    Checked ⟨.format, [text, digits]⟩ (.format radix precision)
  /-- There is nothing to give. -/
  | info : Checked ⟨.info, []⟩ .info
  /-- A name is given. -/
  | remove (name : String) : Checked ⟨.remove, [name]⟩ (.remove name)

/-- A form of numbers that is found has the name. -/
theorem ofName?_of_formOf {text : String} {radix : Radix}
    (found : command.formOf text = .ok radix) :
    Radix.ofName? text = some radix := by
  unfold command.formOf at found
  split at found
  · next known => rw [known, Except.ok.inj found]
  · contradiction

/-- A command that comes through the check has arguments that fit. -/
theorem checked_of_command {invocation : Invocation} {command : Command}
    (passes : invocation.command = .ok command) : invocation.Checked command := by
  obtain ⟨verb, arguments⟩ := invocation
  simp only [Invocation.command] at passes
  split at passes
  · obtain rfl := Except.ok.inj passes
    exact .exit
  · obtain rfl := Except.ok.inj passes
    exact .save none
  · next path =>
    obtain rfl := Except.ok.inj passes
    exact .save (some path)
  · obtain rfl := Except.ok.inj passes
    exact .load none
  · next path =>
    obtain rfl := Except.ok.inj passes
    exact .load (some path)
  · obtain rfl := Except.ok.inj passes
    exact .info
  · next name =>
    obtain rfl := Except.ok.inj passes
    exact .remove name
  · obtain ⟨radix, found, same⟩ := (bind_eq_ok_iff ..).mp passes
    obtain rfl := Except.ok.inj same
    exact .format (ofName?_of_formOf found)
  · obtain ⟨radix, found, rest⟩ := (bind_eq_ok_iff ..).mp passes
    obtain ⟨precision, read, same⟩ := (bind_eq_ok_iff ..).mp rest
    obtain rfl := Except.ok.inj same
    exact .precise (ofName?_of_formOf found) ((mapError_eq_ok_iff ..).mp read)
  · contradiction

/-- The command loads a file, and the library for JSON gives up on its text. -/
def GivesUp (invocation : Invocation) (disk : Disk) (session : Session) (report : String) : Prop :=
  ∃ (path : Option String) (text : String), invocation = ⟨.load, path.toList⟩ ∧
    disk.read? (path.getD session.settings.contextPath) = some text ∧
    disk.json.read text = .aborted report

/-- A checked command that is carried out in place does what the command does. -/
theorem Checked.carryOut_eq {invocation : Invocation} {command : Command}
    (checked : invocation.Checked command) (disk : Disk) (session : Session) :
    (invocation.carryOut disk).run session =
      Session.Result.inPlace session ((session.run disk.json command).on disk) := by
  cases checked with
  | exit | info => rfl
  | save path =>
    have found : (⟨.save, path.toList⟩ : Invocation).path.run session =
        .ok (path.getD session.settings.contextPath) session := by
      cases path <;> rfl
    simp only [carryOut, carryOutSave, EStateM.run_bind, found, EStateM.run_get,
      Session.run, FileTask.on]
    cases disk.write (path.getD session.settings.contextPath)
      (Document.save disk.json session.context ++ "\n") <;> rfl
  | load path =>
    have found : (⟨.load, path.toList⟩ : Invocation).path.run session =
        .ok (path.getD session.settings.contextPath) session := by
      cases path <;> rfl
    simp only [carryOut, carryOutLoad, EStateM.run_bind, found, Session.run, FileTask.on]
    cases disk.read? (path.getD session.settings.contextPath) with
    | none => rfl
    | some text =>
      simp only
      cases Document.load disk.json text with
      | ok context => rfl
      | error fault => cases fault <;> rfl
  | @format text radix known =>
    have found : (⟨.format, [text]⟩ : Invocation).argument 0 = pure text := rfl
    simp only [carryOut, carryOutFormat, found, pure_bind, known]
    rfl
  | @precise text digits radix precision known exact =>
    have found : (⟨.format, [text, digits]⟩ : Invocation).argument 0 = pure text := rfl
    have second : (⟨.format, [text, digits]⟩ : Invocation).argument 1 = pure digits := rfl
    simp only [carryOut, carryOutFormat, found, pure_bind, known, second, exact]
    rfl
  | remove name =>
    have found : (⟨.remove, [name]⟩ : Invocation).argument 0 = pure name := rfl
    simp only [carryOut, carryOutRemove, found, pure_bind, EStateM.run_bind,
      EStateM.run_get, Session.run, Context.remove?]
    cases session.context.constants.contains name with
    | true => rfl
    | false => cases session.context.functions.contains name <;> rfl

end Invocation

namespace Session

/-- A line that goes to the calculator in place is answered as by the calculator. -/
theorem run_compute (session : Session) (line : String) :
    (compute line).run session = Result.inPlace session (session.calculate line) := by
  rw [compute, EStateM.run_bind, EStateM.run_get]
  simp only
  cases parsed : session.context.parse line with
  | error rejection =>
    rw [calculate, session.context.enter_error parsed]
    rfl
  | ok tree =>
    by_cases plain : Context.IsExpression tree
    · rw [calculate, session.context.enter_expression parsed plain]
      cases tree with
      | binary operator position left right =>
        cases operator with
        | assign => exact absurd rfl (plain position left right)
        | add | sub | mul | div | mod | pow => rfl
      | number | constant | call | signed | value => rfl
    · obtain ⟨position, left, right, rfl⟩ : ∃ position left right,
          tree = .binary .assign position left right := by
        simpa [Context.IsExpression] using plain
      rw [calculate, session.context.enter_definition parsed]
      rfl

/-- A line that is carried out in place comes to what the session makes of it, and a failure keeps
the session. -/
theorem run_process (disk : Disk) (line : String) (session : Session) :
    (process disk line).run session =
      Result.inPlace session ((session.enter disk.json line).on disk) := by
  unfold process enter
  cases Invocation.ofLine? line with
  | none => exact session.run_compute line
  | some invocation =>
    simp only
    cases passes : invocation.command with
    | error error => rfl
    | ok command => exact (Invocation.checked_of_command passes).carryOut_eq disk session

/-- What breaks off in place is a failure, and the session is as it was. -/
theorem Result.of_inPlace_error {session next : Session} {result : Result} {breakdown : Breakdown}
    (fails : result.inPlace session = .error breakdown next) :
    next = session ∧ ∃ failure, result = .error failure ∧ breakdown = .failure failure := by
  cases result with
  | ok answer => contradiction
  | error failure =>
    obtain ⟨rfl, rfl⟩ := EStateM.Result.error.inj fails
    exact ⟨rfl, failure, rfl, rfl⟩

/-- A checked command fails for its file, or because the name that is to be removed is not defined,
or because the library gives up on the file that is to be loaded. -/
theorem cases_of_run_error {session : Session} {command : Command} {disk : Disk} {failure : Failure}
    (fails : (session.run disk.json command).on disk = .error failure) :
    (∃ error, failure = .document error) ∨
      (∃ name, command = .remove name ∧ failure = .command (.notDefined name) ∧
        session.context.remove? name = none) ∨
      ∃ path text report, command = .load path ∧
        disk.read? (path.getD session.settings.contextPath) = some text ∧
        disk.json.read text = .aborted report ∧ failure = .aborted report := by
  cases command with
  | exit | format | info => contradiction
  | save path =>
    simp only [run, FileTask.on] at fails
    split at fails
    · contradiction
    · exact Or.inl ⟨_, (Except.error.inj fails).symm⟩
    · exact Or.inl ⟨_, (Except.error.inj fails).symm⟩
  | load path =>
    simp only [run, FileTask.on] at fails
    split at fails
    · exact Or.inl ⟨_, (Except.error.inj fails).symm⟩
    · next text found =>
      split at fails
      · contradiction
      · exact Or.inl ⟨_, (Except.error.inj fails).symm⟩
      · next report gaveUp =>
        have read := Document.load_eq_aborted_iff.mp gaveUp
        exact Or.inr (Or.inr ⟨path, text, report, rfl, found, read, (Except.error.inj fails).symm⟩)
  | remove name =>
    simp only [run] at fails
    split at fails
    · contradiction
    · next absent => exact Or.inr (Or.inl ⟨name, rfl, (Except.error.inj fails).symm, absent⟩)

/-- What breaks off is a line that the calculator, the check of a command or a file refuses, or a
command that loads a file on which the library gives up. -/
theorem cases_of_process_error {session next : Session} {disk : Disk} {line : String}
    {breakdown : Breakdown} (fails : (process disk line).run session = .error breakdown next) :
    breakdown.IsReported ∨ ∃ invocation report, Invocation.ofLine? line = some invocation ∧
      invocation.GivesUp disk session report ∧ breakdown = .failure (.aborted report) := by
  unfold process at fails
  cases read : Invocation.ofLine? line with
  | none =>
    simp only [read] at fails
    rw [run_compute, calculate] at fails
    split at fails
    · contradiction
    · next rejection _ =>
      obtain ⟨rfl, _⟩ := EStateM.Result.error.inj fails
      exact Or.inl (.rejected rejection)
  | some invocation =>
    simp only [read] at fails
    split at fails
    · next error _ =>
      obtain ⟨rfl, _⟩ := EStateM.Result.error.inj fails
      exact Or.inl (.command error)
    · next command passes =>
      have checked := Invocation.checked_of_command passes
      rw [checked.carryOut_eq] at fails
      obtain ⟨_, failure, failed, rfl⟩ := Result.of_inPlace_error fails
      rcases cases_of_run_error failed with
        ⟨error, rfl⟩ | ⟨name, _, rfl, _⟩ | ⟨path, text, report, rfl, found, gaveUp, rfl⟩
      · exact Or.inl (.document error)
      · exact Or.inl (.command (.notDefined name))
      · cases checked
        exact Or.inr ⟨_, report, rfl, ⟨path, text, rfl, found, gaveUp⟩, rfl⟩

/-- A session with a constant and with a form of numbers of its own. -/
def hexSession : Session := visit {} [(.closed, "a = 1"), (.closed, "format hex 4")]

/-- A line that loads a file fails with the exception of the library, if the library gives up on
the file. -/
theorem enter_load_eq_aborted {disk : Disk} {text report : String}
    (found : disk.read? "deep.json" = some text) (gaveUp : disk.json.read text = .aborted report)
    (session : Session) :
    (session.enter disk.json "load deep.json").on disk = .error (.aborted report) := by
  have read : Invocation.ofLine? "load deep.json" = some ⟨.load, ["deep.json"]⟩ := by
    decide +kernel
  have passes : Invocation.command ⟨.load, ["deep.json"]⟩ = .ok (.load (some "deep.json")) := rfl
  have fails := Document.load_eq_aborted_iff.mpr gaveUp
  simp only [enter, read, passes, run, Option.getD_some, FileTask.on, found, fails]

/-- Arrays inside each other, `depth` of them. -/
def nestedArrays (depth : Nat) : String :=
  String.ofList (List.replicate depth '[' ++ List.replicate depth ']')

/-- A library that gives up on more than a thousand brackets in front of a text. Any other text it
refuses. -/
def shallowLibrary : Json.Library where
  read text :=
    if 1000 < (text.toList.takeWhile (· == '[')).length then
      .aborted "Exceeded stackLimit in readValue()."
    else .refused ""
  write _ := ""

/-- The library gives up on arrays that are nested too deeply for it. -/
theorem read_nestedArrays {depth : Nat} (deep : 1000 < depth) :
    shallowLibrary.read (nestedArrays depth) =
      .aborted "Exceeded stackLimit in readValue()." := by
  have opening : ∀ c ∈ List.replicate depth '[', (c == '[') = true := by
    intro c member
    rw [List.eq_of_mem_replicate member]
    rfl
  have closing : (List.replicate depth ']').takeWhile (· == '[') = [] := by
    cases depth <;> rfl
  refine if_pos ?_
  rwa [nestedArrays, String.toList_ofList, List.takeWhile_append_of_pos opening, closing,
    List.append_nil, List.length_replicate]

/-- A host with this library, on which every file has arrays that are nested this deeply. -/
def deepHost (depth : Nat) : Host Unit where
  json := shallowLibrary
  system := ⟨fun _ _ => some (nestedArrays depth), fun _ _ _ => (.unopened, ())⟩

/-- Without the check of its arguments, a command that breaks off would leave a change behind. -/
example (disk : Disk) (session : Session) :
    (Invocation.carryOut ⟨.format, ["hex", "0"]⟩ disk).run session =
      .error (.settings (.badPrecision "0")) (session.withFormat .hex none) := rfl

end Session

end Reckoner
