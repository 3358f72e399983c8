import Reckoner.Proofs.Failing
/-!
# The two ways to work

Inputs are worked off, or the same inputs are typed as lines. Either way they are carried out one
after the other, up to the first that fails or the one that ends the session. What a command shows
is written at once in both ways. A value is written behind a mark when its line is answered, or with
the other values when the last input is done; as no input changes how numbers are shown, its text is
the same. Which files there are, and what the library for JSON makes of them, does not matter. If
the library gives up on a file that an input loads, both ways end with its exception, behind what
has been written until then.
-/

namespace Reckoner

namespace Reply

/-- What a command writes. -/
def commandText : Reply → String
  | shown text => if text.isEmpty then "" else text ++ "\n"
  | outcome _ => ""

/-- The value of an expression. -/
def value? : Reply → Option Number
  | outcome (.value value) => some value
  | _ => none

/-- What a dialogue writes: the text of a command, or a value behind its mark. -/
def answer (format : Format) (reply : Reply) : String :=
  reply.commandText ++ reply.value?.elim "" fun value => "ans: " ++ format.number value ++ "\n"

end Reply

namespace Failure

/-- What a report writes below a heading. -/
def written (heading : String) : Failure → String
  | document _ => heading
  | aborted _ => ""
  | failure => heading ++ failure.message ++ "\n"

/-- What a report adds to the log. -/
def logged : Failure → List String
  | document error => ["[warning] " ++ error.message]
  | _ => []

/-- What is thrown instead of a report. -/
def exception? : Failure → Option String
  | aborted report => some report
  | _ => none

end Failure

section

variable {σ : Type}

/-- The recording when the files have become others and a text has been written. -/
def Recording.extend (recording : Recording σ) (files : σ) (text : String) : Recording σ :=
  { recording with files := files, output := recording.output ++ text }

/-- Nothing happens to a recording. -/
@[simp]
theorem Recording.extend_files_empty (recording : Recording σ) :
    recording.extend recording.files "" = recording := by
  simp [extend]

/-- A recording that is extended twice. -/
@[simp]
theorem Recording.extend_extend (recording : Recording σ) (files later : σ) (text more : String) :
    (recording.extend files text).extend later more = recording.extend later (text ++ more) := by
  simp [extend, String.append_assoc]

/-- The files of a recording that is extended. -/
@[simp]
theorem Recording.files_extend (recording : Recording σ) (files : σ) (text : String) :
    (recording.extend files text).files = files := rfl

/-- What a session makes of a line on a host, and the files then. -/
def Host.enter (host : Host σ) (files : σ) (session : Session) (line : String) :
    Session.Result × σ :=
  host.system.perform files (session.enter host.json line)

end

/-- The input is the command that ends the session. -/
def IsExit (input : String) : Prop := Invocation.ofLine? input = some ⟨.exit, []⟩

/-- The input is one line that is not idle, and no command that changes how numbers are shown. -/
structure IsPlainInput (input : String) : Prop where
  /-- There is no end of a line in it. -/
  oneLine : '\n' ∉ input.toList
  /-- There is something in it that is not skipped. -/
  busy : Console.isIdle input = false
  /-- The command that it may be keeps the format. -/
  keepsFormat : ∀ invocation radix precision, Invocation.ofLine? input = some invocation →
    invocation.command ≠ .ok (.format radix precision)

/-- The command with its arguments checked ends the session only without any. -/
theorem Invocation.command_eq_exit_iff (invocation : Invocation) :
    invocation.command = .ok .exit ↔ invocation = ⟨.exit, []⟩ := by
  constructor
  · intro passes
    cases checked_of_command passes
    rfl
  · rintro rfl
    rfl

section

variable {σ : Type} (host : Host σ)

namespace Session

/-- A plain input that succeeds ends the session or leaves all but the context as it is. -/
theorem enter_cases {session next : Session} {input : String} {files later : σ}
    {reply : Reply} (plain : IsPlainInput input)
    (succeeds : host.enter files session input = (.ok (next, reply), later)) :
    (IsExit input ∧ next = { session with finished := true }) ∨
      (¬ IsExit input ∧ ∃ context, next = { session with context := context }) := by
  have result : (session.enter host.json input).on (host.disk files) = .ok (next, reply) := by
    rw [← Host.perform_fst]
    exact congrArg Prod.fst succeeds
  unfold enter at result
  split at result
  · next noCommand =>
    refine .inr ⟨by simp [IsExit, noCommand], ?_⟩
    simp only [FileTask.on, calculate] at result
    split at result
    · obtain ⟨rfl, _⟩ := Prod.mk.inj (Except.ok.inj result)
      exact ⟨_, rfl⟩
    · contradiction
  · next invocation found =>
    split at result
    · next command checked =>
      have exit_iff : IsExit input ↔ command = .exit := by
        rw [IsExit, found, Option.some.injEq, ← invocation.command_eq_exit_iff, checked,
          Except.ok.injEq]
      rw [exit_iff]
      have executes : session.Executes (host.disk files) command next := executes_of_run result
      cases executes with
      | exit => exact .inl ⟨rfl, rfl⟩
      | format radix precision =>
        exact absurd checked (plain.keepsFormat invocation radix precision found)
      | save | info => exact .inr ⟨Command.noConfusion, session.context, rfl⟩
      | load | remove => exact .inr ⟨Command.noConfusion, _, rfl⟩
    · contradiction

/-- A plain input that succeeds changes no setting. -/
theorem settings_of_ok {session next : Session} {input : String} {files later : σ}
    {reply : Reply} (plain : IsPlainInput input)
    (succeeds : host.enter files session input = (.ok (next, reply), later)) :
    next.settings = session.settings := by
  rcases enter_cases host plain succeeds with ⟨_, rfl⟩ | ⟨_, context, rfl⟩ <;> rfl

/-- Inputs that succeed one after the other, none of them behind the end of the session, with their
replies and the session and files behind the last of them. -/
inductive Passes : Session → σ → List String → List Reply → Session → σ → Prop
  /-- There is no input. -/
  | nothing (session : Session) (files : σ) : Passes session files [] [] session files
  /-- The first input succeeds, and so do the others. -/
  | input {session next last : Session} {files later kept : σ} {input : String}
    {others : List String} {reply : Reply} {replies : List Reply}
    (running : session.finished = false)
    (succeeds : host.enter files session input = (.ok (next, reply), later))
    (rest : Passes next later others replies last kept) :
    Passes session files (input :: others) (reply :: replies) last kept

/-- No input is carried out any more, because there is none, the session has ended or the next one
fails. The files are those behind the failure. -/
inductive Stops (session : Session) (files : σ) : List String → Option Failure → σ → Prop
  /-- There are no more inputs. -/
  | noMore : Stops session files [] none files
  /-- The session has ended. -/
  | finished (inputs : List String) (ended : session.finished = true) :
    Stops session files inputs none files
  /-- The next input fails. -/
  | failing {input : String} {failure : Failure} {later : σ} (others : List String)
    (running : session.finished = false)
    (fails : host.enter files session input = (.error failure, later)) :
    Stops session files (input :: others) (some failure) later

end Session

/-- What inputs come to that are carried out one after the other. -/
structure Course (σ : Type) where
  /-- The inputs that succeed. -/
  passed : List String
  /-- The inputs behind them. -/
  rest : List String
  /-- The replies to the inputs that succeed. -/
  replies : List Reply
  /-- The session behind them. -/
  last : Session
  /-- The files behind them. -/
  kept : σ
  /-- The failure of the next input, if that is why no more inputs succeed. -/
  failure? : Option Failure
  /-- The files behind the input that fails, or behind all if none fails. -/
  left : σ

namespace Course

variable (course : Course σ)

/-- What the commands write. -/
def commandTexts : String := String.join (course.replies.map Reply.commandText)

/-- The values of the expressions. -/
def values : List Number := course.replies.filterMap Reply.value?

/-- The values in one line, if there are any. -/
def valueLine (format : Format) : String :=
  if course.values.isEmpty then ""
  else "; ".intercalate (course.values.map format.number) ++ "\n"

/-- The report on the input that fails, which names its number. -/
def report : String :=
  course.failure?.elim ""
    (Failure.written ("In input " ++ toString (course.passed.length + 1) ++ ":\n"))

/-- What the report adds to the log. -/
def logged : List String := course.failure?.elim [] Failure.logged

/-- The exception of the input that fails, if it is not reported. -/
def exception? : Option String := course.failure?.bind Failure.exception?

/-- The status of a program that works off the inputs. -/
def status : UInt8 := if course.failure?.isSome then 1 else 0

/-- The dialogue on the inputs that succeed: a prompt and an answer for each. -/
def dialogue (format : Format) : String :=
  String.join (course.replies.map fun reply => ">>> " ++ reply.answer format)

end Course

/-- The inputs come to this course. -/
structure Session.Takes (session : Session) (files : σ) (inputs : List String)
    (course : Course σ) : Prop where
  /-- The inputs that succeed stand in front. -/
  inputs_eq : inputs = course.passed ++ course.rest
  /-- They succeed one after the other. -/
  passes : session.Passes host files course.passed course.replies course.last course.kept
  /-- No more inputs succeed behind them. -/
  stops : course.last.Stops host course.kept course.rest course.failure? course.left

/-- Inputs come to some course. -/
theorem Session.exists_takes (session : Session) (files : σ) (inputs : List String) :
    ∃ course, session.Takes host files inputs course := by
  induction inputs generalizing session files with
  | nil => exact ⟨⟨[], [], [], session, files, none, files⟩, rfl, .nothing session files, .noMore⟩
  | cons input others ih =>
    cases running : session.finished with
    | true =>
      exact ⟨⟨[], input :: others, [], session, files, none, files⟩, rfl, .nothing session files,
        .finished _ running⟩
    | false =>
      cases performed : host.enter files session input with
      | mk result later =>
        cases result with
        | error failure =>
          exact ⟨⟨[], input :: others, [], session, files, some failure, later⟩, rfl,
            .nothing session files, .failing others running performed⟩
        | ok answered =>
          obtain ⟨next, reply⟩ := answered
          obtain ⟨course, split, passes, stops⟩ := ih next later
          exact ⟨{ course with
            passed := input :: course.passed
            replies := reply :: course.replies },
            congrArg (input :: ·) split, .input running performed passes, stops⟩

end

namespace Session.Passes

variable {σ : Type} {host : Host σ} {session last : Session} {files kept : σ}
  {inputs : List String} {replies : List Reply}

/-- No input succeeds behind the end of the session. -/
theorem eq_of_finished (passes : session.Passes host files inputs replies last kept)
    (ended : session.finished = true) : inputs = [] := by
  cases passes with
  | nothing => rfl
  | input running => exact absurd ended (Bool.eq_false_iff.mp running)

/-- Plain inputs that succeed change no setting. -/
theorem settings_eq (passes : session.Passes host files inputs replies last kept)
    (plain : ∀ input ∈ inputs, IsPlainInput input) : last.settings = session.settings := by
  induction passes with
  | nothing => rfl
  | @input session next last files later kept input others reply replies running succeeds rest ih =>
    rw [List.forall_mem_cons] at plain
    rw [ih plain.2, settings_of_ok host plain.1 succeeds]

/-- Among plain inputs that succeed the one that ends the session is the last. -/
theorem isExit_iff (passes : session.Passes host files inputs replies last kept)
    (plain : ∀ input ∈ inputs, IsPlainInput input) {front behind : List String} {input : String}
    (place : inputs = front ++ input :: behind) :
    IsExit input ↔ behind = [] ∧ last.finished = true := by
  induction passes generalizing front with
  | nothing => simp at place
  | @input session next last files later kept first others reply replies running succeeds rest ih =>
    rw [List.forall_mem_cons] at plain
    cases front with
    | cons other front =>
      obtain ⟨_, others_eq⟩ := List.cons.inj place
      exact ih plain.2 others_eq
    | nil =>
      obtain ⟨rfl, rfl⟩ := List.cons.inj place
      rcases enter_cases host plain.1 succeeds with ⟨isExit, rfl⟩ | ⟨noExit, context, rfl⟩
      · obtain rfl := rest.eq_of_finished rfl
        cases rest
        exact ⟨fun _ => ⟨rfl, rfl⟩, fun _ => isExit⟩
      · refine ⟨fun isExit => absurd isExit noExit, ?_⟩
        rintro ⟨rfl, ended⟩
        cases rest
        exact absurd ended (Bool.eq_false_iff.mp running)

end Session.Passes

/-! ### The recorded console -/

section

variable {σ : Type} {α β : Type}

/-- A step is taken before the next one. -/
theorem Recorded.on_bind_ok {first : Recorded σ α} {next : α → Recorded σ β}
    {recording later : Recording σ} {result : α} (done : first.on recording = (.ok result, later)) :
    (first >>= next).on recording = (next result).on later := by
  have unfolded : (first >>= next).on recording =
      ExceptT.bindCont next (first.on recording).1 (first.on recording).2 := rfl
  rw [unfolded, done]
  rfl

/-- Nothing is done behind an exception. -/
theorem Recorded.on_bind_error {first : Recorded σ α} {next : α → Recorded σ β}
    {recording later : Recording σ} {report : String}
    (thrown : first.on recording = (.error report, later)) :
    (first >>= next).on recording = (.error report, later) := by
  have unfolded : (first >>= next).on recording =
      ExceptT.bindCont next (first.on recording).1 (first.on recording).2 := rfl
  rw [unfolded, thrown]
  rfl

end

namespace Console

variable {σ : Type} {host : Host σ} {session next last : Session} {recording : Recording σ}
  {files : σ} {input : String} {others : List String} {reply : Reply} {failure : Failure}

/-- A report writes below its heading and to the log, unless there is an exception instead. -/
theorem on_report (heading : String) (handled : failure.exception? = none) :
    ((recorded host).report heading failure).on recording =
      (.ok (), { recording with
        output := recording.output ++ failure.written heading
        log := recording.log ++ failure.logged }) := by
  cases failure with
  | aborted report => contradiction
  | document error => rfl
  | rejected | command =>
    simp only [Failure.logged, List.append_nil]
    rfl

/-- An exception is thrown on. -/
theorem on_report_of_exception (heading : String) {report : String}
    (thrown : failure.exception? = some report) :
    ((recorded host).report heading failure).on recording = (.error report, recording) := by
  cases failure with
  | aborted other =>
    obtain rfl := Option.some.inj thrown
    rfl
  | document | rejected | command => contradiction

/-- The text of a command is written. -/
theorem on_showText (text : String) (recording : Recording σ) :
    ((recorded host).showText text).on recording =
      (.ok (), recording.extend recording.files (Reply.shown text).commandText) := by
  unfold showText
  split
  · next empty =>
    rw [Reply.commandText, if_pos empty, Recording.extend_files_empty]
    rfl
  · next visible =>
    rw [Reply.commandText, if_neg visible]
    rfl

/-- A line is carried out on the files. -/
theorem on_perform {result : Session.Result}
    (performed : host.enter recording.files session input = (result, files)) :
    ((recorded host).perform (session.enter (recorded host).library input)).on recording =
      (.ok result, recording.extend files "") := by
  have unfolded : ((recorded host).perform
        (session.enter (recorded host).library input)).on recording =
      (.ok (host.enter recording.files session input).1,
        { recording with files := (host.enter recording.files session input).2 }) := rfl
  rw [unfolded, performed, Recording.extend, String.append_empty]

/-- What working off inputs comes to, with further values in front. -/
def withValues (front : List Number)
    (worked : Except String (List Number × Session × Bool) × Recording σ) :
    Except String (List Number × Session × Bool) × Recording σ :=
  (worked.1.map fun (values, rest) => (front ++ values, rest), worked.2)

/-- Values in front of no result are none. -/
@[simp]
theorem withValues_error (front : List Number) (report : String) (recording : Recording σ) :
    withValues front (.error report, recording) = (.error report, recording) := rfl

/-- Values in front of those of a result. -/
@[simp]
theorem withValues_ok (front values : List Number) (rest : Session × Bool)
    (recording : Recording σ) :
    withValues front (.ok (values, rest), recording) = (.ok (front ++ values, rest), recording) :=
  rfl

/-- No values in front change nothing. -/
@[simp]
theorem withValues_nil (worked : Except String (List Number × Session × Bool) × Recording σ) :
    withValues [] worked = worked := by
  obtain ⟨result, recording⟩ := worked
  cases result <;> rfl

/-- Values in front of values. -/
theorem withValues_append (front values : List Number)
    (worked : Except String (List Number × Session × Bool) × Recording σ) :
    withValues (front ++ values) worked = withValues front (withValues values worked) := by
  obtain ⟨result, recording⟩ := worked
  cases result with
  | error report => rfl
  | ok found => simp [withValues, Except.map]

/-- Of the inputs, the first one succeeds. -/
theorem on_runInputs_of_ok (running : session.finished = false)
    (succeeds : host.enter recording.files session input = (.ok (next, reply), files))
    (number : Nat) :
    ((recorded host).runInputs session number (input :: others)).on recording =
      withValues reply.value?.toList (((recorded host).runInputs next (number + 1) others).on
        (recording.extend files reply.commandText)) := by
  rw [runInputs, if_neg (Bool.eq_false_iff.mp running), Recorded.on_bind_ok (on_perform succeeds)]
  cases reply with
  | shown text =>
    dsimp only
    rw [Recorded.on_bind_ok (on_showText ..), Recording.extend_extend, Recording.files_extend,
      String.empty_append]
    exact (withValues_nil _).symm
  | outcome outcome =>
    cases outcome with
    | defined => exact (withValues_nil _).symm
    | value value =>
      dsimp only [Reply.commandText]
      cases worked : ((recorded host).runInputs next (number + 1) others).on
          (recording.extend files "") with
      | mk result later =>
        cases result with
        | error report => exact Recorded.on_bind_error worked
        | ok found => exact Recorded.on_bind_ok worked

/-- The first input fails and is reported. -/
theorem on_runInputs_of_error (running : session.finished = false)
    (fails : host.enter recording.files session input = (.error failure, files))
    (handled : failure.exception? = none) (number : Nat) :
    ((recorded host).runInputs session number (input :: others)).on recording =
      (.ok ([], session, false), {
        files := files
        output := recording.output ++ failure.written ("In input " ++ toString number ++ ":\n")
        log := recording.log ++ failure.logged }) := by
  rw [runInputs, if_neg (Bool.eq_false_iff.mp running), Recorded.on_bind_ok (on_perform fails)]
  have reported : ((recorded host).report ("In input " ++ toString number ++ ":\n") failure).on
      (recording.extend files "") = (.ok (), {
        files := files
        output := recording.output ++ failure.written ("In input " ++ toString number ++ ":\n")
        log := recording.log ++ failure.logged }) := by
    rw [on_report _ handled, Recording.extend, String.append_empty]
  exact Recorded.on_bind_ok reported

/-- The first input ends with an exception. -/
theorem on_runInputs_of_exception (running : session.finished = false)
    (fails : host.enter recording.files session input = (.error failure, files)) {report : String}
    (thrown : failure.exception? = some report) (number : Nat) :
    ((recorded host).runInputs session number (input :: others)).on recording =
      (.error report, recording.extend files "") := by
  rw [runInputs, if_neg (Bool.eq_false_iff.mp running), Recorded.on_bind_ok (on_perform fails)]
  exact Recorded.on_bind_error (on_report_of_exception _ thrown)

/-- A line that succeeds is answered. -/
theorem on_answer_of_ok (busy : isIdle input = false)
    (succeeds : host.enter recording.files session input = (.ok (next, reply), files)) :
    ((recorded host).answer session input).on recording =
      (.ok next, recording.extend files (reply.answer next.settings.format)) := by
  unfold answer
  rw [if_neg (Bool.eq_false_iff.mp busy), Recorded.on_bind_ok (on_perform succeeds)]
  cases reply with
  | shown text =>
    have answered : (Reply.shown text).answer next.settings.format =
        (Reply.shown text).commandText := String.append_empty
    dsimp only
    rw [Recorded.on_bind_ok (on_showText ..), Recording.extend_extend, Recording.files_extend,
      String.empty_append, answered]
    rfl
  | outcome outcome =>
    cases outcome with
    | defined => rfl
    | value value =>
      have answered : (Reply.outcome (.value value)).answer next.settings.format =
          "" ++ ("ans: " ++ next.settings.format.number value ++ "\n") := rfl
      rw [answered, ← Recording.extend_extend]
      exact Recorded.on_bind_ok rfl

/-- Of the lines, the first one succeeds. -/
theorem on_interact_of_ok (running : session.finished = false) (busy : isIdle input = false)
    (succeeds : host.enter recording.files session input = (.ok (next, reply), files)) :
    ((recorded host).interact session (input :: others)).on recording =
      ((recorded host).interact next others).on
        (recording.extend files (">>> " ++ reply.answer next.settings.format)) := by
  have prompted : (recorded host).prompt.on recording =
      (.ok (), recording.extend recording.files ">>> ") := rfl
  have answered : ((recorded host).answer session input).on
      (recording.extend recording.files ">>> ") =
        (.ok next, (recording.extend recording.files ">>> ").extend files
          (reply.answer next.settings.format)) := on_answer_of_ok busy succeeds
  rw [interact, if_neg (Bool.eq_false_iff.mp running), Recorded.on_bind_ok prompted,
    Recorded.on_bind_ok answered, Recording.extend_extend]

/-- The first line ends with an exception. -/
theorem on_interact_of_exception (running : session.finished = false)
    (busy : isIdle input = false)
    (fails : host.enter recording.files session input = (.error failure, files)) {report : String}
    (thrown : failure.exception? = some report) :
    ((recorded host).interact session (input :: others)).on recording =
      (.error report, recording.extend files ">>> ") := by
  have prompted : (recorded host).prompt.on recording =
      (.ok (), recording.extend recording.files ">>> ") := rfl
  have performed : ((recorded host).perform
      (session.enter (recorded host).library input)).on (recording.extend recording.files ">>> ") =
        (.ok (.error failure), (recording.extend recording.files ">>> ").extend files "") :=
    on_perform fails
  have answered : ((recorded host).answer session input).on
      (recording.extend recording.files ">>> ") =
        (.error report, recording.extend files ">>> ") := by
    rw [answer, if_neg (Bool.eq_false_iff.mp busy), Recorded.on_bind_ok performed,
      Recording.extend_extend, String.append_empty]
    exact Recorded.on_bind_error (on_report_of_exception "" thrown)
  rw [interact, if_neg (Bool.eq_false_iff.mp running), Recorded.on_bind_ok prompted,
    Recorded.on_bind_error answered]

end Console

namespace Session

open Console

variable {σ : Type} {host : Host σ} {session last : Session} {recording : Recording σ}
  {files kept : σ} {inputs others : List String} {replies : List Reply}

/-- Inputs that succeed are worked off in front of others. -/
theorem Passes.on_runInputs (passes : session.Passes host files inputs replies last kept)
    (found : recording.files = files) (number : Nat) :
    ((recorded host).runInputs session number (inputs ++ others)).on recording =
      withValues (replies.filterMap Reply.value?)
        (((recorded host).runInputs last (number + inputs.length) others).on
          (recording.extend kept (String.join (replies.map Reply.commandText)))) := by
  induction passes generalizing recording number with
  | nothing =>
    rw [← found]
    simp
  | @input session next last files between kept input inputs reply replies running succeeds _ ih =>
    rw [← found] at succeeds
    have extended := Recording.files_extend recording between reply.commandText
    have count : number + (input :: inputs).length = number + 1 + inputs.length := by
      rw [List.length_cons]
      omega
    have values : (reply :: replies).filterMap Reply.value? =
        reply.value?.toList ++ replies.filterMap Reply.value? := by
      cases value : reply.value? <;> simp [value]
    rw [List.cons_append, on_runInputs_of_ok running succeeds, ih extended, values,
      withValues_append, count, Recording.extend_extend, List.map_cons, String.join_cons]

/-- Where no more inputs are carried out, a failure is reported. -/
theorem Stops.on_runInputs {failure? : Option Failure}
    (stops : session.Stops host recording.files inputs failure? files)
    (handled : failure?.bind Failure.exception? = none) (number : Nat) :
    ((recorded host).runInputs session number inputs).on recording =
      (.ok ([], session, failure?.isNone), {
        files := files
        output := recording.output ++
          failure?.elim "" (Failure.written ("In input " ++ toString number ++ ":\n"))
        log := recording.log ++ failure?.elim [] Failure.logged }) := by
  have unchanged : { recording with
      output := recording.output ++ ""
      log := recording.log ++ [] } = recording := by simp
  cases stops with
  | noMore => exact congrArg (Prod.mk (Except.ok ([], session, true))) unchanged.symm
  | finished inputs ended =>
    cases inputs with
    | nil => exact congrArg (Prod.mk (Except.ok ([], session, true))) unchanged.symm
    | cons input others =>
      rw [runInputs, if_pos ended]
      exact congrArg (Prod.mk (Except.ok ([], session, true))) unchanged.symm
  | failing others running fails => exact on_runInputs_of_error running fails handled number

/-- Where an input ends with an exception, so do the inputs. -/
theorem Stops.on_runInputs_of_exception {failure? : Option Failure} {report : String}
    (stops : session.Stops host recording.files inputs failure? files)
    (thrown : failure?.bind Failure.exception? = some report) (number : Nat) :
    ((recorded host).runInputs session number inputs).on recording =
      (.error report, recording.extend files "") := by
  cases stops with
  | noMore => contradiction
  | finished => contradiction
  | failing others running fails =>
    exact Console.on_runInputs_of_exception running fails thrown number

/-- Inputs are worked off, and their values are shown. -/
theorem Takes.on_call {course : Course σ} (takes : session.Takes host recording.files inputs course)
    (plain : ∀ input ∈ inputs, IsPlainInput input) (handled : course.exception? = none) :
    ((recorded host).call session inputs).on recording =
      (.ok (course.status, course.last),
        { files := course.left
          output := recording.output ++ course.commandTexts ++ course.report ++
            course.valueLine session.settings.format
          log := recording.log ++ course.logged }) := by
  obtain ⟨split, passes, stops⟩ := takes
  rw [split, List.forall_mem_append] at plain
  have settings := passes.settings_eq plain.1
  let between := recording.extend course.kept course.commandTexts
  have stops : course.last.Stops host between.files course.rest course.failure? course.left := stops
  have stopped := stops.on_runInputs handled (1 + course.passed.length)
  have worked : ((recorded host).runInputs session 1 inputs).on recording =
      (.ok (course.values, course.last, course.failure?.isNone),
        { files := course.left
          output := recording.output ++ course.commandTexts ++ course.report
          log := recording.log ++ course.logged }) := by
    rw [split, passes.on_runInputs rfl]
    refine (congrArg (withValues course.values) stopped).trans ?_
    rw [withValues_ok, List.append_nil, Nat.add_comm 1]
    rfl
  have status : (if course.failure?.isNone = true then 0 else 1) = course.status := by
    unfold Course.status
    cases course.failure? <;> rfl
  rw [call, Recorded.on_bind_ok worked]
  dsimp only
  rw [status, settings]
  unfold Course.valueLine
  cases course.values.isEmpty with
  | true =>
    rw [if_pos rfl, String.append_empty]
    rfl
  | false => rfl

/-- Inputs that end with an exception write what the commands in front of it show. -/
theorem Takes.on_call_of_exception {course : Course σ} {report : String}
    (takes : session.Takes host recording.files inputs course)
    (thrown : course.exception? = some report) :
    ((recorded host).call session inputs).on recording =
      (.error report, recording.extend course.left course.commandTexts) := by
  obtain ⟨split, passes, stops⟩ := takes
  let between := recording.extend course.kept course.commandTexts
  have stops : course.last.Stops host between.files course.rest course.failure? course.left := stops
  have stopped := stops.on_runInputs_of_exception thrown (1 + course.passed.length)
  have worked : ((recorded host).runInputs session 1 inputs).on recording =
      (.error report, recording.extend course.left course.commandTexts) := by
    rw [split, passes.on_runInputs rfl]
    refine (congrArg (withValues course.values) stopped).trans ?_
    rw [withValues_error, Recording.extend_extend, String.append_empty]
  exact Recorded.on_bind_error worked

end Session

/-- The inputs as lines that are typed. -/
def typed (inputs : List String) : String := String.join (inputs.map (· ++ "\n"))

/-- The first line of a text ends with the first end of a line. -/
theorem linesOf_append {line : String} (oneLine : '\n' ∉ line.toList) (more : String) :
    linesOf (line ++ "\n" ++ more) = line :: linesOf more := by
  have solid : ∀ c ∈ line.toList, (c == '\n') = false := by
    intro c member
    exact beq_eq_false_iff_ne.mpr (ne_of_mem_of_not_mem member oneLine)
  have parts : (more.toList.splitOn '\n').map String.ofList ≠ [] := by
    simp [List.splitOn_ne_nil]
  have split : ((line ++ "\n" ++ more).toList.splitOn '\n').map String.ofList =
      line :: (more.toList.splitOn '\n').map String.ofList := by
    have text : (line ++ "\n" ++ more).toList = line.toList ++ '\n' :: more.toList := by simp
    rw [text, List.splitOn, List.splitOnP_append_cons_of_forall_mem solid '\n' rfl, List.map_cons,
      String.ofList_toList]
    rfl
  obtain ⟨second, others, shape⟩ := List.exists_cons_of_ne_nil parts
  simp only [linesOf, split, shape, List.getLast?_cons_cons, List.dropLast_cons_cons]
  split <;> rfl

/-- The first of the typed inputs is the first line. -/
theorem linesOf_typed_cons {input : String} (plain : IsPlainInput input) (inputs : List String)
    (more : String) :
    linesOf (typed (input :: inputs) ++ more) = input :: linesOf (typed inputs ++ more) := by
  rw [← linesOf_append plain.oneLine, typed, List.map_cons, String.join_cons, String.append_assoc]
  rfl

/-- Lines that succeed are answered in front of others. -/
theorem Session.Passes.on_interact {σ : Type} {host : Host σ} {session last : Session}
    {recording : Recording σ} {files kept : σ} {inputs : List String} {replies : List Reply}
    (passes : session.Passes host files inputs replies last kept) (found : recording.files = files)
    (plain : ∀ input ∈ inputs, IsPlainInput input) (more : String) :
    ((Console.recorded host).interact session (linesOf (typed inputs ++ more))).on recording =
      ((Console.recorded host).interact last (linesOf more)).on (recording.extend kept
        (String.join (replies.map fun reply =>
          ">>> " ++ reply.answer session.settings.format))) := by
  induction passes generalizing recording with
  | nothing =>
    rw [← found]
    simp [typed]
  | @input session next last files between kept input inputs reply replies running succeeds _ ih =>
    rw [← found] at succeeds
    rw [List.forall_mem_cons] at plain
    rw [linesOf_typed_cons plain.1, Console.on_interact_of_ok running plain.1.busy succeeds,
      ih rfl plain.2, settings_of_ok host plain.1 succeeds, Recording.extend_extend,
      List.map_cons, String.join_cons]

/-- A host without files, with a library that reads nothing. -/
def Host.bare : Host Unit where
  json := ⟨fun _ => .refused "", fun _ => ""⟩
  system := ⟨fun _ _ => none, fun _ _ _ => (.unopened, ())⟩

namespace Console

variable {σ : Type}

/-- Inputs that are worked off and the same inputs typed as lines come to one course. -/
structure Agreement (host : Host σ) (session : Session) (inputs : List String)
    (recording : Recording σ) (course : Course σ) : Prop where
  /-- The inputs are carried out up to the first that fails, or the end of the session. -/
  takes : session.Takes host recording.files inputs course
  /-- Of the inputs that succeed the one that ends the session is the last, and no other ends it. -/
  exits : ∀ front input behind, course.passed = front ++ input :: behind →
    (IsExit input ↔ behind = [] ∧ course.last.finished = true)
  /-- Working off the inputs writes what the commands show, a report on the input that fails, and
  the values in one line. The status tells whether one fails. -/
  called : course.exception? = none →
    ((recorded host).call session inputs).on recording =
      (.ok (course.status, course.last),
        { files := course.left
          output := recording.output ++ course.commandTexts ++ course.report ++
            course.valueLine session.settings.format
          log := recording.log ++ course.logged })
  /-- The dialogue writes the same texts of commands and values, each behind its prompt. It goes on
  from the same session and files with what is typed behind the inputs that succeed. -/
  answered : ∀ more,
    ((recorded host).interact session (linesOf (typed course.passed ++ more))).on recording =
      ((recorded host).interact course.last (linesOf more)).on
        (recording.extend course.kept (course.dialogue session.settings.format))
  /-- If the library for JSON gives up on the file of the input that fails, both ways end there with
  its exception: there is no report, no value is shown any more and there is no status. -/
  aborted : ∀ exception, course.exception? = some exception →
    ((recorded host).call session inputs).on recording =
        (.error exception, recording.extend course.left course.commandTexts) ∧
      ((recorded host).interact session (linesOf (typed inputs))).on recording =
        (.error exception,
          recording.extend course.left (course.dialogue session.settings.format ++ ">>> "))

/-- A definition, an expression, a command with a text, a command that fails, and the end. -/
def mixedInputs : List String := ["x = 2", "x * 3", "info", "remove y", "exit"]

end Console

end Reckoner
