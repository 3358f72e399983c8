import Reckoner.Proofs.Offences
/-!
# Where reports point

A report on a line repeats the line and puts a marker under one of its bytes: the last one of a
token or of a run that is no literal, the first one of a character that starts no token, or the byte
behind the line if the line ends too early. What is found there is shown behind the marker. Only the
report on equal parameters points at the front of the line. This is so for the bytes of any line, be
they those of a text or not. A message ends in front of a NUL character, so a report is whole as a
message if the line has none.
-/

namespace Reckoner

/-! ### NUL characters -/

/-- The text has no NUL character. -/
def IsPrintable (text : String) : Prop := '\x00' ∉ text.toList

instance (text : String) : Decidable (IsPrintable text) := inferInstanceAs (Decidable (_ ∉ _))

/-- A text that is put together has no NUL character if its parts have none. -/
@[simp]
theorem isPrintable_append (front back : String) :
    IsPrintable (front ++ back) ↔ IsPrintable front ∧ IsPrintable back := by
  rw [IsPrintable, String.toList_append, List.mem_append, not_or]
  rfl

/-- Quotation marks bring in no NUL character. -/
@[simp]
theorem isPrintable_quoted (text : String) : IsPrintable (quoted text) ↔ IsPrintable text := by
  have mark : IsPrintable "\"" := by decide
  rw [quoted, isPrintable_append, isPrintable_append, and_iff_left mark, and_iff_right mark]

/-- A number of arguments brings in no NUL character. -/
@[simp]
theorem isPrintable_argumentCount (count : Nat) : IsPrintable (Fault.argumentCount count) := by
  rw [Fault.argumentCount, isPrintable_append]
  refine ⟨fun member => ?_, by decide⟩
  have digit : ('\x00').isDigit = true := by
    refine Nat.isDigit_of_mem_toDigits (b := 10) (n := count) (by decide) (by decide) ?_
    rwa [← String.toList_ofList (l := Nat.toDigits 10 count)]
  exact absurd digit (by decide)

/-! ### Targets of reports -/

/-- No token starts with the character, and it is not skipped. -/
structure StartsNoToken (c : Char) : Prop where
  /-- It is no white space. -/
  noBlank : isBlank c = false
  /-- It starts no name. -/
  noLetter : isLetter c = false
  /-- It starts no number. -/
  noNumber : (c.isDigit || c == '.') = false
  /-- It is no operator. -/
  noOperator : Operator.ofChar? c = none
  /-- It is no punctuation mark. -/
  noMark : Mark.ofChar? c = none

/-- What a report points at. -/
inductive Target where
  /-- A character that starts no token. -/
  | character
  /-- A run that is no literal. -/
  | run (shown : String)
  /-- A token, and its text if it is shown. -/
  | token (text : Option String)
  /-- The end of the line. -/
  | lineEnd
  /-- The front of the line. -/
  | lineFront

/-- The target stands at this byte of the line. A run and a token stand at their last byte, and a
character stands at its first one. -/
def Target.StandsAt (line : Bytes) (tokens : List Token) (place : Nat) : Target → Prop
  | character => ∃ before byte after, line = before ++ byte :: after ∧ before.length = place ∧
      StartsNoToken (Scan.characterOf byte)
  | run shown => ∃ before span after, line = before ++ span ++ after ∧ span ≠ [] ∧
      (before ++ span).length = place + 1 ∧
      shown.toList = Literal.spelled (span.map Scan.characterOf)
  | token text => ∃ found ∈ tokens, found.stop = place ∧ ∀ shown ∈ text, found.text = shown
  | lineEnd => place = line.length
  | lineFront => place = 0 ∧ line ≠ []

namespace Fault

/-- What a report says behind the marker. -/
def ending : Fault → String
  | unknownCharacter => ""
  | fault => " Found: " ++ fault.expectation.2

/-- What a report on a fault points at. -/
def target : Fault → Target
  | unknownCharacter => .character
  | brokenNumber shown => .run shown
  | noFurtherToken | missingOperand | missingMark _ none => .lineEnd
  | equalParameters => .lineFront
  | missingArgument => .token Mark.closing.text
  | nestedAssignment => .token Operator.assign.text
  | wrongArity .. => .token none
  | notASign text | misplaced text | missingSeparator text | missingMark _ (some text)
  | trailing text | builtInTarget text | badTarget text | builtInParameter text
  | badParameter text | symbolic text | unknownConstant text | unknownFunction text
  | recursive text => .token text

/-- The number of arguments that are found is no end of the input. -/
theorem argumentCount_ne (count : Nat) : argumentCount count ≠ "end of input" := by
  intro same
  have last : (argumentCount count).toList.getLast? = some ')' := by
    rw [argumentCount, String.toList_append, List.getLast?_append]
    rfl
  rw [same] at last
  exact absurd last (by decide)

/-- The end of the input is reported exactly for what points at the end of the line. -/
theorem ending_eq_iff (fault : Fault) :
    fault.ending = " Found: end of input" ↔ fault.target = .lineEnd := by
  have found (text : String) : " Found: " ++ text = " Found: end of input" ↔
      text = "end of input" := by
    have words : " Found: end of input" = " Found: " ++ "end of input" := by simp
    rw [words, String.append_right_inj]
  cases fault with
  | wrongArity expected count =>
    refine iff_of_false ?_ nofun
    exact fun same => argumentCount_ne count ((found _).mp same)
  | missingMark mark other =>
    cases other <;> simp [ending, expectation, target, quoted, ← String.toList_inj]
  | _ => simp [ending, expectation, target, quoted, ← String.toList_inj]

end Fault

/-- What the first line of a report says behind its first word. -/
def Diagnosis.headline (line : Bytes) (diagnosis : Diagnosis) : Bytes :=
  match diagnosis.fault with
  | .unknownCharacter =>
    bytesOf "Unknown token found: \"" ++ diagnosis.character line ++ bytesOf "\""
  | fault => bytesOf ("Expected " ++ fault.expectation.1)

/-- A report on a line has three parts around the marked line. -/
theorem Diagnosis.report_eq (line : Bytes) (diagnosis : Diagnosis) :
    diagnosis.report line = bytesOf "Error: " ++ diagnosis.headline line ++ bytesOf ".\n" ++
      markedLine line diagnosis.position ++ bytesOf diagnosis.fault.ending := by
  obtain ⟨fault, position⟩ := diagnosis
  have expected (wanted found : String) : expectationReport line wanted (some found) position =
      bytesOf "Error: " ++ bytesOf ("Expected " ++ wanted) ++ bytesOf ".\n" ++
        markedLine line position ++ bytesOf (" Found: " ++ found) := by
    have words : "Error: Expected " ++ wanted ++ ".\n" =
        "Error: " ++ ("Expected " ++ wanted) ++ ".\n" := by
      simp [← String.append_assoc]
    rw [expectationReport, words, bytesOf_append, bytesOf_append]
  cases fault with
  | unknownCharacter =>
    have first : bytesOf "Error: Unknown token found: \"" =
        bytesOf "Error: " ++ bytesOf "Unknown token found: \"" := by
      rw [← bytesOf_append]
      simp
    have second : bytesOf "\".\n" = bytesOf "\"" ++ bytesOf ".\n" := by
      rw [← bytesOf_append]
      simp
    have ending : bytesOf "" = [] := rfl
    simp only [report, headline, Fault.ending, first, second, ending, List.append_assoc,
      List.append_nil]
  | _ => exact expected _ _

/-- Without NUL characters in what is shown, a report brings in none. -/
theorem Fault.isPrintable_report {fault : Fault} (known : fault.target ≠ .character)
    (run : ∀ shown, fault.target = .run shown → IsPrintable shown)
    (token : ∀ text, fault.target = .token (some text) → IsPrintable text)
    (mark : ∀ mark found, fault = .missingMark mark found → IsPrintable mark) :
    IsPrintable ("Expected " ++ fault.expectation.1) ∧ IsPrintable fault.ending := by
  have expected (wanted found : String) (first : IsPrintable wanted) (second : IsPrintable found) :
      IsPrintable ("Expected " ++ wanted) ∧ IsPrintable (" Found: " ++ found) := by
    rw [isPrintable_append, isPrintable_append]
    exact ⟨⟨by simp [IsPrintable], first⟩, by simp [IsPrintable], second⟩
  cases fault with
  | unknownCharacter => exact absurd rfl known
  | brokenNumber text =>
    have shown := run text rfl
    refine expected _ _ ?_ ?_ <;>
      simp only [expectation, isPrintable_append, isPrintable_quoted, shown] <;> simp [IsPrintable]
  | missingMark wanted found =>
    have asked := mark wanted found rfl
    cases found with
    | none =>
      refine expected _ _ ?_ ?_ <;>
        simp only [expectation, isPrintable_append, isPrintable_quoted, asked] <;>
        simp [IsPrintable]
    | some text =>
      have shown := token text rfl
      refine expected _ _ ?_ ?_
      · simp only [expectation, isPrintable_append, isPrintable_quoted, asked]
        simp [IsPrintable]
      · simp only [expectation, isPrintable_quoted, shown]
  | noFurtherToken | missingOperand | missingArgument | nestedAssignment | equalParameters
  | wrongArity =>
    refine expected _ _ ?_ ?_ <;>
      simp only [expectation, isPrintable_quoted, isPrintable_argumentCount] <;>
      simp [IsPrintable, operandWanted]
  | notASign text | misplaced text | missingSeparator text | trailing text | builtInTarget text
  | badTarget text | builtInParameter text | badParameter text | symbolic text
  | unknownConstant text | unknownFunction text | recursive text =>
    have shown := token text rfl
    refine expected _ _ ?_ ?_ <;>
      simp only [expectation, isPrintable_append, isPrintable_quoted, shown] <;>
      simp [IsPrintable, operandWanted]

/-- A diagnosis points into the line: its target stands at its position. If it asks for a mark, the
mark is a parenthesis, and if it is about a character, then this is what stopped the reading. -/
structure Diagnosis.PointsInto (line : Bytes) (scan : Scan) (diagnosis : Diagnosis) : Prop where
  /-- The target stands at the position. -/
  target : diagnosis.fault.target.StandsAt line scan.tokens diagnosis.position
  /-- The mark that is asked for is a parenthesis. -/
  mark : ∀ mark found, diagnosis.fault = .missingMark mark found →
    mark = Mark.opening.text ∨ mark = Mark.closing.text
  /-- The reading has stopped at the character. -/
  stop : diagnosis.fault.target = .character → scan.stop = some diagnosis

namespace Scan

/-- What stops the reading of a text that starts at a byte. What stands in front of it is ASCII. -/
inductive Stops (start : Nat) (text : List Char) : Diagnosis → Prop
  /-- A character starts no token. -/
  | character {before after : List Char} {c : Char} (whole : text = before ++ c :: after)
    (ascii : IsAscii before) (startsNone : StartsNoToken c) :
    Stops start text ⟨.unknownCharacter, start + before.length⟩
  /-- A run is no literal. It is shown with a zero in front of its point. -/
  | run {before span after : List Char} {position : Nat} (whole : text = before ++ (span ++ after))
    (long : span ≠ []) (ends : position + 1 = start + (before ++ span).length) :
    Stops start text ⟨.brokenNumber (String.ofList (Literal.spelled span)), position⟩

/-- What stops the reading of a text stops it further behind as well. -/
theorem Stops.behind {start here : Nat} {front text : List Char} {diagnosis : Diagnosis}
    (stops : Stops here text diagnosis) (each : IsAscii front)
    (place : here = start + front.length) : Stops start (front ++ text) diagnosis := by
  subst place
  cases stops with
  | @character before after c whole ascii startsNone =>
    rw [Nat.add_assoc, ← List.length_append]
    exact .character (by rw [whole, List.append_assoc])
      (List.forall_mem_append.mpr ⟨each, ascii⟩) startsNone
  | @run before span after position whole long ends =>
    refine .run (by rw [whole, List.append_assoc]) long ?_
    rw [List.append_assoc, List.length_append, ends, Nat.add_assoc]

/-- A run that is no literal is shown as it is spelled, and it is reported at its last byte. -/
theorem literal_eq_error {start : Nat} {first : Char} {rest : List Char} {diagnosis : Diagnosis}
    (refused : literal start (Literal.run first rest) = .error diagnosis) :
    diagnosis = ⟨.brokenNumber (String.ofList (Literal.spelled (Literal.run first rest).span)),
      start + (Literal.run first rest).span.length - 1⟩ := by
  simp only [literal] at refused
  split at refused
  · contradiction
  · obtain rfl := Except.error.inj refused
    have shown : (if (Literal.run first rest).imaginary then
          Literal.spelled (Literal.run first rest).characters ++ ['i']
        else Literal.spelled (Literal.run first rest).characters) =
          Literal.spelled (Literal.run first rest).span := by
      rw [Literal.spelled_eq, Literal.spelled_eq, Literal.Run.span]
      split <;> simp [Literal.run, Literal.Run.cons]
    rw [shown, Literal.Run.length_span]

/-- The front of a text that is no token stops the reading. -/
theorem stops_of_token {start : Nat} {first : Char} {rest : List Char} {diagnosis : Diagnosis}
    (visible : isBlank first = false)
    (refused : (token start first rest).1 = .error diagnosis) :
    Stops start (first :: rest) diagnosis := by
  by_cases letter : isLetter first = true
  · rw [token, if_pos letter] at refused
    contradiction
  by_cases begins : first.isDigit = true ∨ first = '.'
  · have front : (Literal.run first rest).span ++ (Literal.run first rest).behind = first :: rest :=
      congrArg (first :: ·) (Literal.span_append_behind _ _ rest)
    have long : 0 < (Literal.run first rest).span.length := Nat.succ_pos _
    rw [token_run start rest begins] at refused
    rw [literal_eq_error refused]
    refine @Stops.run _ _ [] _ _ _ front.symm (List.ne_nil_of_length_pos long) ?_
    rw [List.nil_append]
    omega
  · have plain : isLetter first = false ∧ (first.isDigit || first == '.') = false := by
      simpa [letter] using begins
    rw [token_symbol plain] at refused
    split at refused
    · contradiction
    · contradiction
    · next noOperator noMark =>
      obtain rfl := Except.error.inj refused
      exact @Stops.character _ _ [] rest first rfl (List.forall_mem_nil _)
        ⟨visible, plain.1, plain.2, noOperator, noMark⟩

/-- What stops the reading of a text is a character or a run of the text. -/
theorem stops_ofText {start : Nat} {text : List Char} {diagnosis : Diagnosis}
    (stopped : (ofText start text).stop = some diagnosis) : Stops start text diagnosis := by
  induction start, text using ofText.induct with
  | case1 start text blank =>
    rw [ofText_of_blank blank] at stopped
    contradiction
  | case2 start text first rest unread here other refused =>
    rw [ofText_of_error unread rfl refused] at stopped
    obtain rfl := Option.some.inj stopped
    have blank : ∀ c ∈ text.takeWhile isBlank, isBlank c = true :=
      List.all_eq_true.mp List.all_takeWhile
    have visible : isBlank first = false := by
      have head := List.head?_dropWhile_not isBlank text
      rwa [unread] at head
    rw [← @List.takeWhile_append_dropWhile _ isBlank text, unread]
    exact (stops_of_token visible refused).behind (isAscii_of_blank blank) rfl
  | case3 start text first rest unread here found read ih =>
    rw [ofText_of_ok unread rfl read] at stopped
    obtain ⟨span, _, front, stands⟩ := token_spec read
    have blank : ∀ c ∈ text.takeWhile isBlank, isBlank c = true :=
      List.all_eq_true.mp List.all_takeWhile
    have place : found.stop + 1 = start + (text.takeWhile isBlank ++ span).length := by
      rw [stands.ends, List.length_append, Nat.add_assoc]
    rw [← @List.takeWhile_append_dropWhile _ isBlank text, unread, ← front,
      ← List.append_assoc]
    exact (ih stopped).behind
      (List.forall_mem_append.mpr ⟨isAscii_of_blank blank, stands.ascii⟩) place

/-- What stops the reading of some bytes is reported where it stands. -/
theorem pointsInto_of_stop {line : Bytes} {diagnosis : Diagnosis} {scan : Scan}
    (read : (ofBytes line).stop = scan.stop) (stopped : scan.stop = some diagnosis) :
    diagnosis.PointsInto line scan := by
  have stops := stops_ofText (read.trans stopped)
  refine ⟨?_, fun mark found asked => by cases stops <;> contradiction, fun _ => stopped⟩
  cases stops with
  | @character before after c whole ascii startsNone =>
    obtain ⟨front, others, rfl, rfl, unit⟩ := List.map_eq_append_iff.mp whole
    obtain ⟨byte, behind, rfl, rfl, rfl⟩ := List.map_eq_cons_iff.mp unit
    refine ⟨front, byte, behind, rfl, ?_, startsNone⟩
    rw [Nat.zero_add, List.length_map]
  | @run before span after position whole long ends =>
    obtain ⟨front, others, rfl, rfl, units⟩ := List.map_eq_append_iff.mp whole
    obtain ⟨middle, behind, rfl, rfl, rfl⟩ := List.map_eq_append_iff.mp units
    refine ⟨front, middle, behind, (List.append_assoc ..).symm, mt List.map_eq_nil_iff.mpr long,
      ?_, String.toList_ofList⟩
    rw [ends, Nat.zero_add, ← List.map_append, List.length_map]

/-- The tokens of some bytes stand on slices of them, which spell them. -/
theorem exists_slice_of_mem {context : Context} {line : Bytes} {found : Token}
    (among : found ∈ (context.scanBytes line).tokens) :
    ∃ before span after, line = before ++ span ++ after ∧ span ≠ [] ∧
      before.length = found.start ∧ (before ++ span).length = found.stop + 1 ∧
      found.lexeme.IsSpelledBy (span.map characterOf) := by
  obtain ⟨unread, tiles, _⟩ := tiles_ofText 0 (line.map characterOf)
  obtain ⟨before, span, after, whole, long, ascii, begins, ends, spelled⟩ :=
    (tiles.resolve context).slice found among
  obtain ⟨front, others, rfl, rfl, units⟩ := List.map_eq_append_iff.mp whole
  obtain ⟨middle, behind, rfl, rfl, rfl⟩ := List.map_eq_append_iff.mp units
  obtain ⟨asciiFront, asciiMiddle⟩ := List.forall_mem_append.mp ascii
  rw [IsAscii.byteLength_eq asciiFront, List.length_map, Nat.zero_add] at begins
  rw [IsAscii.byteLength_eq asciiMiddle, List.length_map, begins, ← List.length_append] at ends
  exact ⟨front, middle, behind, (List.append_assoc ..).symm, mt List.map_eq_nil_iff.mpr long,
    begins.symm, ends.symm, spelled⟩

end Scan

section

variable {line : Bytes} {scan : Scan}

/-- A report on a token points at it, if it shows the text of the token or none. -/
theorem Diagnosis.PointsInto.token {found : Token} (among : found ∈ scan.tokens) {fault : Fault}
    {text : Option String} (target : fault.target = .token text)
    (shown : ∀ shown ∈ text, found.text = shown)
    (mark : ∀ mark other, fault = .missingMark mark other →
      mark = Mark.opening.text ∨ mark = Mark.closing.text) :
    (Diagnosis.mk fault found.stop).PointsInto line scan := by
  refine ⟨?_, mark, fun character => ?_⟩
  · show fault.target.StandsAt line scan.tokens found.stop
    rw [target]
    exact ⟨found, among, rfl, shown⟩
  · cases target.symm.trans character

namespace Build

variable {token : Token} {diagnosis : Diagnosis}

/-- The fault of a token behind a complete operand is reported at the token. -/
theorem pointsInto_unexpected (among : token ∈ scan.tokens) (stack : List Frame) :
    (unexpected token stack).PointsInto line scan := by
  unfold unexpected
  split
  · exact .token among (show _ = Target.token (some token.text) from rfl) (by simp) (by simp)
  · exact .token among rfl (by simp) (by simp)
  · exact .token among rfl (by simp) (by simp)

/-- A closing mark that cannot stand where an operand has to is reported at its byte. -/
theorem pointsInto_closeEmpty (among : token ∈ scan.tokens) (shape : token.lexeme = .mark .closing)
    {stack : List Frame} (failed : closeEmpty token.stop stack = .error diagnosis) :
    diagnosis.PointsInto line scan := by
  have text : token.text = Mark.closing.text := by rw [Token.text, shape, Lexeme.text]
  unfold closeEmpty at failed
  split at failed
  · contradiction
  · obtain rfl := Except.error.inj failed
    exact .token among rfl (by simp [text]) (by simp)
  · obtain rfl := Except.error.inj failed
    exact .token among rfl (by simp [text]) (by simp)

/-- A token that cannot stand where an operand has to is reported at its last byte. -/
theorem pointsInto_stepOperand (among : token ∈ scan.tokens) {stack : List Frame}
    (failed : stepOperand stack token = .error diagnosis) :
    diagnosis.PointsInto line scan := by
  unfold stepOperand at failed
  split at failed
  · contradiction
  · contradiction
  · contradiction
  · next operator shape =>
    have text : token.text = operator.text := by rw [Token.text, shape, Lexeme.text]
    split at failed
    · contradiction
    · obtain rfl := Except.error.inj failed
      exact .token among rfl (by simp [text]) (by simp)
  · contradiction
  · next shape => exact pointsInto_closeEmpty among shape failed
  · next shape =>
    have text : token.text = Mark.comma.text := by rw [Token.text, shape, Lexeme.text]
    obtain rfl := Except.error.inj failed
    exact .token among rfl (by simp [text]) (by simp)

/-- A token that cannot follow a complete operand is reported at its last byte. -/
theorem pointsInto_stepComplete (among : token ∈ scan.tokens) {expr : Expr} {stack : List Frame}
    (failed : stepComplete expr stack token = .error diagnosis) :
    diagnosis.PointsInto line scan := by
  unfold stepComplete at failed
  split at failed
  · contradiction
  · split at failed
    · contradiction
    · contradiction
    · obtain rfl := Except.error.inj failed
      exact pointsInto_unexpected among _
  · split at failed
    · contradiction
    · obtain rfl := Except.error.inj failed
      exact pointsInto_unexpected among _
  · obtain rfl := Except.error.inj failed
    exact pointsInto_unexpected among _

/-- A token that cannot be taken up is reported at its last byte. -/
theorem pointsInto_step (among : token ∈ scan.tokens) {build : Build}
    (failed : build.step token = .error diagnosis) : diagnosis.PointsInto line scan := by
  cases build with
  | operand stack => exact pointsInto_stepOperand among failed
  | complete expr stack => exact pointsInto_stepComplete among failed
  | callee origin name position stack =>
    simp only [step] at failed
    split at failed
    · contradiction
    · obtain rfl := Except.error.inj failed
      exact .token among (show _ = Target.token (some token.text) from rfl) (by simp) (by simp)

/-- What is open at the end of the line is reported there. -/
theorem pointsInto_finish {build : Build}
    (failed : build.finish line.length = .error diagnosis) :
    diagnosis.PointsInto line scan := by
  unfold finish at failed
  split at failed
  · obtain rfl := Except.error.inj failed
    exact ⟨rfl, by simp, nofun⟩
  · obtain rfl := Except.error.inj failed
    exact ⟨rfl, by simp, nofun⟩
  · obtain rfl := Except.error.inj failed
    exact ⟨rfl, by simp, nofun⟩
  · split at failed
    · contradiction
    · obtain rfl := Except.error.inj failed
      exact ⟨rfl, by simp, nofun⟩

end Build

end

/-- If taking a list through a step fails, the step fails on an element. -/
theorem exists_of_mapM_eq_error {ε α β : Type} {step : α → Except ε β} {list : List α} {fault : ε}
    (failed : list.mapM step = .error fault) : ∃ element ∈ list, step element = .error fault := by
  induction list with
  | nil => contradiction
  | cons first others ih =>
    rw [List.mapM_cons, bind_eq_error_iff] at failed
    rcases failed with failed | ⟨result, _, rest⟩
    · exact ⟨first, List.mem_cons_self, failed⟩
    · rcases (bind_eq_error_iff ..).mp rest with failed | ⟨_, _, impossible⟩
      · obtain ⟨element, member, found⟩ := ih failed
        exact ⟨element, List.mem_cons_of_mem _ member, found⟩
      · contradiction

/-- If taking up a list of elements fails, it fails on one of them. -/
theorem exists_of_foldlM_eq_error {ε α β : Type} {step : β → α → Except ε β} {list : List α}
    {state : β} {fault : ε} (failed : list.foldlM step state = .error fault) :
    ∃ before, ∃ element ∈ list, step before element = .error fault := by
  induction list generalizing state with
  | nil => contradiction
  | cons first others ih =>
    rw [List.foldlM_cons, bind_eq_error_iff] at failed
    rcases failed with failed | ⟨next, _, rest⟩
    · exact ⟨state, first, List.mem_cons_self, failed⟩
    · obtain ⟨before, element, member, found⟩ := ih rest
      exact ⟨before, element, List.mem_cons_of_mem _ member, found⟩

/-- The root of a tree is one of its nodes. -/
theorem Expr.mem_nodes_self (expr : Expr) : expr ∈ expr.nodes := by
  cases expr <;> exact List.mem_cons_self

namespace Context

variable {context : Context} {line : Bytes} {tree : Expr} {diagnosis : Diagnosis}

/-- A line without a tree is refused with a report that points into it. -/
theorem pointsInto_of_tree (failed : context.treeBytes line = .error diagnosis) :
    diagnosis.PointsInto line (context.scanBytes line) := by
  rw [treeBytes, Scan.tree, bind_eq_error_iff] at failed
  rcases failed with failed | ⟨build, _, rest⟩
  · obtain ⟨build, token, member, refused⟩ := exists_of_foldlM_eq_error failed
    exact Build.pointsInto_step member refused
  · split at rest
    · next other stopped =>
      obtain rfl := Except.error.inj rest
      exact Scan.pointsInto_of_stop rfl stopped
    · exact Build.pointsInto_finish rest

/-- A report on a node of the tree points at its token, if it shows the text of the node or none. -/
theorem pointsInto_node (built : context.treeBytes line = .ok tree) {node : Expr}
    (member : node ∈ tree.nodes) {fault : Fault} {text : Option String}
    (target : fault.target = .token text) (shown : ∀ shown ∈ text, node.rootText = shown)
    (mark : ∀ mark other, fault = .missingMark mark other →
      mark = Mark.opening.text ∨ mark = Mark.closing.text) :
    (Diagnosis.mk fault node.position).PointsInto line (context.scanBytes line) := by
  obtain ⟨found, among, same, stop⟩ := Scan.exists_token_of_mem_nodes built member
  rw [← stop]
  exact .token among target (fun other known => same.trans (shown other known)) mark

/-- The report on a node that offends points at its token. -/
theorem pointsInto_checkNode (built : context.treeBytes line = .ok tree) {node : Expr}
    (member : node ∈ tree.nodes) {parameters : Option (List String)}
    (failed : context.checkNode parameters node = .error diagnosis) :
    diagnosis.PointsInto line (context.scanBytes line) := by
  cases node with
  | number | signed | value => contradiction
  | constant origin name position =>
    simp only [checkNode, checkConstant] at failed
    split at failed
    · split at failed
      · contradiction
      · obtain rfl := Except.error.inj failed
        exact pointsInto_node built member rfl (by simp [Expr.rootText]) (by simp)
    · obtain rfl := Except.error.inj failed
      exact pointsInto_node built member rfl (by simp [Expr.rootText]) (by simp)
    · contradiction
  | call origin name position arguments =>
    simp only [checkNode, checkCall] at failed
    split at failed
    · obtain rfl := Except.error.inj failed
      split
      · exact pointsInto_node built member rfl (by simp [Expr.rootText]) (by simp)
      · exact pointsInto_node built member rfl (by simp [Expr.rootText]) (by simp)
    · split at failed
      · contradiction
      · obtain rfl := Except.error.inj failed
        exact pointsInto_node built member rfl (by simp) (by simp)
  | binary operator position left right =>
    simp only [checkNode] at failed
    split at failed
    · next assignment =>
      obtain rfl := Except.error.inj failed
      exact pointsInto_node built member rfl (by simp [Expr.rootText, assignment]) (by simp)
    · contradiction

/-- The report on the names of a part of the tree points at the token of a node. -/
theorem pointsInto_checkNames (built : context.treeBytes line = .ok tree) {part : Expr}
    (inside : part.nodes ⊆ tree.nodes) {parameters : Option (List String)}
    (failed : context.checkNames parameters part = .error diagnosis) :
    diagnosis.PointsInto line (context.scanBytes line) := by
  rw [checkNames_eq_forM, forM_eq_error_iff] at failed
  obtain ⟨before, node, after, visit, refused, _⟩ := failed
  have member : node ∈ part.inOrder := visit ▸ List.mem_append_right _ List.mem_cons_self
  exact pointsInto_checkNode built (inside (Expr.mem_inOrder_iff.mp member)) refused

/-- The report on a parameter points at its token, and that on equal parameters at the front of the
line. -/
theorem pointsInto_parameterNames (built : context.treeBytes line = .ok tree)
    {parameters : List Expr}
    (inside : ∀ parameter ∈ parameters, parameter ∈ tree.nodes)
    (failed : parameterNames parameters = .error diagnosis) :
    diagnosis.PointsInto line (context.scanBytes line) := by
  rw [parameterNames, bind_eq_error_iff] at failed
  rcases failed with failed | ⟨names, _, rest⟩
  · obtain ⟨parameter, member, refused⟩ := exists_of_mapM_eq_error failed
    have node := inside parameter member
    unfold parameterName at refused
    split at refused
    · obtain rfl := Except.error.inj refused
      exact pointsInto_node built node rfl (by simp [Expr.rootText]) (by simp)
    · contradiction
    · obtain rfl := Except.error.inj refused
      exact pointsInto_node built node rfl (by simp) (by simp)
  · split at rest
    · contradiction
    · obtain rfl := Except.error.inj rest
      obtain ⟨found, among, _⟩ := Scan.exists_token_of_mem_nodes built tree.mem_nodes_self
      have known : Fault.equalParameters.target ≠ .character := by simp [Fault.target]
      refine ⟨⟨rfl, ?_⟩, by simp, fun same => absurd same known⟩
      obtain ⟨before, span, after, rfl, long, _⟩ := Scan.exists_slice_of_mem among
      simp [long]

/-- A line with a tree whose check fails is refused with a report that points into it. -/
theorem pointsInto_of_check (built : context.treeBytes line = .ok tree)
    (failed : context.check tree = .error diagnosis) :
    diagnosis.PointsInto line (context.scanBytes line) := by
  unfold check at failed
  split at failed
  · next place left right =>
    have leftSide : left.nodes ⊆ (Expr.binary .assign place left right).nodes :=
      fun node member => List.mem_cons_of_mem _ (List.mem_append_left _ member)
    have rightSide : right.nodes ⊆ (Expr.binary .assign place left right).nodes :=
      fun node member => List.mem_cons_of_mem _ (List.mem_append_right _ member)
    have target := leftSide left.mem_nodes_self
    unfold checkDefinition at failed
    split at failed
    · obtain rfl := Except.error.inj failed
      exact pointsInto_node built target rfl (by simp [Expr.rootText]) (by simp)
    · obtain rfl := Except.error.inj failed
      exact pointsInto_node built target rfl (by simp [Expr.rootText]) (by simp)
    · exact pointsInto_checkNames built rightSide failed
    · next origin name position parameters _ =>
      rcases (bind_eq_error_iff ..).mp failed with failed | ⟨names, _, rest⟩
      · refine pointsInto_parameterNames built (fun parameter member => leftSide ?_) failed
        rw [Expr.nodes, Expr.nodesAll_eq_flatMap]
        exact List.mem_cons_of_mem _
          (List.mem_flatMap.mpr ⟨parameter, member, parameter.mem_nodes_self⟩)
      rcases (bind_eq_error_iff ..).mp rest with failed | ⟨_, _, search⟩
      · exact pointsInto_checkNames built rightSide failed
      · split at search
        · next callee position found =>
          obtain rfl := Except.error.inj search
          rw [firstCallTo?_eq_findSome?] at found
          obtain ⟨node, visited, called⟩ := List.exists_of_findSome?_eq_some found
          obtain ⟨⟨⟨place, arguments, rfl⟩, _⟩, rfl⟩ := (callTowards?_eq_some_iff ..).mp called
          have member := rightSide (Expr.mem_inOrder_iff.mp visited)
          exact pointsInto_node built member rfl (by simp [Expr.rootText]) (by simp)
        · contradiction
    · obtain rfl := Except.error.inj failed
      exact pointsInto_node built target rfl (by simp [Expr.rootText]) (by simp)
    · obtain rfl := Except.error.inj failed
      exact pointsInto_node built target rfl (by simp) (by simp)
  · exact pointsInto_checkNames built (List.Subset.refl _) failed

/-- A refused line has a report that points into it. -/
theorem pointsInto_of_parse (refused : context.parseBytes line = .error diagnosis) :
    diagnosis.PointsInto line (context.scanBytes line) := by
  rcases (parseBytes_eq_error_iff ..).mp refused with failed | ⟨tree, built, failed⟩
  · exact pointsInto_of_tree failed
  · exact pointsInto_of_check built failed

end Context

/-! ### Shown parts -/

/-- What is spelled for a slice has its characters, but for a zero in front of a point. -/
theorem Literal.mem_of_mem_pointed {span text : List Char} {c : Char}
    (member : c ∈ (if span.head? = some '.' then ['0'] else []) ++ text) : c = '0' ∨ c ∈ text := by
  rw [List.mem_append] at member
  refine member.imp_left fun zero => ?_
  split at zero
  · exact List.mem_singleton.mp zero
  · contradiction

/-- The literal as it is spelled has the characters of the run, but for a zero in front. -/
theorem Literal.mem_spelled {text : List Char} {c : Char} (member : c ∈ spelled text) :
    c = '0' ∨ c ∈ text := by
  rw [spelled_eq] at member
  exact mem_of_mem_pointed member

/-- The text of a lexeme has the characters of the slice that spells it, but for a zero in front. -/
theorem Lexeme.IsSpelledBy.mem {lexeme : Lexeme} {span : List Char}
    (spelled : lexeme.IsSpelledBy span) {c : Char} (member : c ∈ lexeme.text.toList) :
    c = '0' ∨ c ∈ span := by
  cases lexeme with
  | number spelling imaginary =>
    rw [Lexeme.text, spelled.2] at member
    refine (Literal.mem_of_mem_pointed member).imp_right fun inText => ?_
    split at inText
    · exact List.mem_of_mem_dropLast inText
    · exact inText
  | constant | function | operator | mark =>
    rw [← show _ = span from spelled]
    exact Or.inr member

/-- If tokens end inside the line, then every target stands in it or, at the end of the line, right
behind it. -/
theorem Target.StandsAt.le_and_eq_iff {line : Bytes} {tokens : List Token} {place : Nat}
    {target : Target} (stands : target.StandsAt line tokens place)
    (inside : ∀ found ∈ tokens, found.stop < line.length) :
    place ≤ line.length ∧ (place = line.length ↔ target = .lineEnd) := by
  cases target with
  | lineEnd =>
    obtain rfl := stands
    exact ⟨Nat.le_refl _, iff_of_true rfl rfl⟩
  | character =>
    obtain ⟨before, byte, after, rfl, rfl, _⟩ := stands
    simp only [List.length_append, List.length_cons]
    exact ⟨by omega, iff_of_false (by omega) nofun⟩
  | run shown =>
    obtain ⟨before, span, after, rfl, _, ends, _⟩ := stands
    rw [List.length_append, ends]
    exact ⟨by omega, iff_of_false (by omega) nofun⟩
  | token text =>
    obtain ⟨found, among, rfl, _⟩ := stands
    have last := inside found among
    exact ⟨Nat.le_of_lt last, iff_of_false (Nat.ne_of_lt last) nofun⟩
  | lineFront =>
    obtain ⟨rfl, long⟩ := stands
    have bytes : line.length ≠ 0 := mt List.length_eq_zero_iff.mp long
    exact ⟨Nat.zero_le _, iff_of_false bytes.symm nofun⟩

namespace Diagnosis

/-- What a report asks for is in its headline, unless it is on an unknown character. -/
theorem headline_eq (line : Bytes) {diagnosis : Diagnosis}
    (known : diagnosis.fault ≠ .unknownCharacter) :
    diagnosis.headline line = bytesOf ("Expected " ++ diagnosis.fault.expectation.1) := by
  obtain ⟨fault, place⟩ := diagnosis
  cases fault with
  | unknownCharacter => exact absurd rfl known
  | _ => rfl

/-- What a report shows has no NUL character if the line has none. -/
theorem PointsInto.zero_not_mem {context : Context} {line : Bytes} {diagnosis : Diagnosis}
    (points : diagnosis.PointsInto line (context.scanBytes line)) (whole : 0 ∉ line) :
    0 ∉ diagnosis.headline line ∧ 0 ∉ bytesOf diagnosis.fault.ending := by
  by_cases unknown : diagnosis.fault = .unknownCharacter
  · have shown : 0 ∉ diagnosis.character line := fun member =>
      whole (List.mem_of_mem_drop (Bytes.character_subset _ member))
    simp only [headline, unknown, Fault.ending, List.mem_append, zero_mem_bytesOf, shown]
    simp
  rw [headline_eq line unknown, zero_mem_bytesOf, zero_mem_bytesOf]
  have stands := points.target
  have noZero : '\x00' ≠ '0' := by decide
  apply Fault.isPrintable_report
  · cases same : diagnosis.fault with
    | unknownCharacter => exact absurd same unknown
    | missingMark mark found => cases found <;> nofun
    | _ => nofun
  · intro text target member
    rw [target] at stands
    obtain ⟨before, span, after, rfl, _, _, shown⟩ := stands
    rw [shown] at member
    have inside := Scan.zero_mem_of_nul_mem ((Literal.mem_spelled member).resolve_left noZero)
    exact whole (by simp [inside])
  · intro text target member
    rw [target] at stands
    obtain ⟨found, among, _, shown⟩ := stands
    obtain ⟨before, span, after, rfl, _, _, _, spelled⟩ := Scan.exists_slice_of_mem among
    rw [← shown text rfl] at member
    have inside := Scan.zero_mem_of_nul_mem ((spelled.mem member).resolve_left noZero)
    exact whole (by simp [inside])
  · intro mark found asked
    rcases points.mark mark found asked with rfl | rfl <;> decide

/-- In the bytes of a text, a report on an unknown character shows that character as a whole. -/
theorem PointsInto.exists_character {context : Context} {text : String} {diagnosis : Diagnosis}
    (points : diagnosis.PointsInto (bytesOf text) (context.scanBytes (bytesOf text)))
    (unknown : diagnosis.fault = .unknownCharacter) :
    ∃ before c after, text = before ++ String.singleton c ++ after ∧
      before.utf8ByteSize = diagnosis.position ∧ StartsNoToken c ∧
      diagnosis.character (bytesOf text) = String.utf8EncodeChar c := by
  have stopped : (Scan.ofLine text).stop = some diagnosis := points.stop (by rw [unknown]; rfl)
  rw [Scan.ofLine_eq] at stopped
  cases Scan.stops_ofText stopped with
  | run => contradiction
  | @character before after c whole ascii startsNone =>
    have size : (String.ofList before).utf8ByteSize = before.length := by
      rw [← byteLength_toList, String.toList_ofList, IsAscii.byteLength_eq ascii]
    refine ⟨String.ofList before, c, String.ofList after, ?_, ?_, startsNone, ?_⟩
    · rw [← String.toList_inj, whole]
      simp
    · rw [size, Nat.zero_add]
    · have place : (before.flatMap String.utf8EncodeChar).length = 0 + before.length := by
        rw [← size, ← length_bytesOf, bytesOf, String.toList_ofList, Nat.zero_add]
      rw [Diagnosis.character, bytesOf, whole, List.flatMap_append, ← place, List.drop_left,
        Bytes.character_encoded]

end Diagnosis

/-! ### Whole reports -/

/-- The report on a refused line consists of its words, the line, a marker behind as many spaces as
the position says, and what was found. As a message it is cut in front of the first zero, so it is
whole if the line has none. The position is inside the line or at its end, and it is at the end
exactly if the end of the input is what was found. Otherwise it is the last byte of a token of the
line or of the broken literal that the report is about, the first byte of a character that starts no
token, or the front of the line if parameters are equal. In the bytes of a text, that character is
shown as a whole. -/
theorem Context.refusal_points_into_line (context : Context) {line : Bytes}
    {diagnosis : Diagnosis} (refused : context.parseBytes line = .error diagnosis) :
    let fault := diagnosis.fault
    let place := diagnosis.position
    let report := bytesOf "Error: " ++ diagnosis.headline line ++ bytesOf ".\n" ++
      (line ++ bytesOf ("\n" ++ String.ofList (List.replicate place ' ') ++ "^~~~")) ++
      bytesOf fault.ending
    diagnosis.message line = report.untilZero ∧ (0 ∉ line → diagnosis.message line = report) ∧
      place ≤ line.length ∧ (place = line.length ↔ fault.ending = " Found: end of input") ∧
      fault.target.StandsAt line (context.scanBytes line).tokens place ∧
      (∀ found ∈ (context.scanBytes line).tokens, ∃ before span after,
        line = before ++ span ++ after ∧ span ≠ [] ∧ before.length = found.start ∧
          (before ++ span).length = found.stop + 1 ∧
          found.lexeme.IsSpelledBy (span.map Scan.characterOf)) ∧
      (fault = .unknownCharacter → ∀ text, line = bytesOf text →
        ∃ before c after, text = before ++ String.singleton c ++ after ∧
          before.utf8ByteSize = place ∧ StartsNoToken c ∧
          diagnosis.character line = String.utf8EncodeChar c) := by
  intro fault place report
  have points := pointsInto_of_parse refused
  have message : diagnosis.message line = report.untilZero := by
    rw [Diagnosis.message, Diagnosis.report_eq]
    rfl
  have bounds := points.target.le_and_eq_iff fun found among => by
    obtain ⟨before, span, after, rfl, _, _, ends, _⟩ := Scan.exists_slice_of_mem among
    rw [List.length_append, ends]
    omega
  refine ⟨message, fun whole => ?_, bounds.1, ?_, points.target,
    fun found among => Scan.exists_slice_of_mem among, ?_⟩
  · obtain ⟨headline, ending⟩ := points.zero_not_mem whole
    rw [message, Bytes.untilZero_of_not_mem]
    have marker : IsPrintable ("\n" ++ String.ofList (List.replicate place ' ') ++ "^~~~") := by
      simp [IsPrintable]
    have words : IsPrintable "Error: " ∧ IsPrintable ".\n" := by decide
    simp only [report, fault, List.mem_append, headline, ending, whole, or_false, false_or]
    simp only [zero_mem_bytesOf, not_or]
    exact ⟨words, marker⟩
  · rw [Fault.ending_eq_iff]
    exact bounds.2
  · rintro unknown text rfl
    exact points.exists_character unknown

/-- A character of two bytes that starts no token is shown as a whole, with the marker under its
first byte. -/
theorem Context.refusal_points_at_character :
    ∃ diagnosis, ({} : Context).parseBytes (bytesOf "2 é") = .error diagnosis ∧
      diagnosis.message (bytesOf "2 é") =
        bytesOf "Error: Unknown token found: \"é\".\n2 é\n  ^~~~" ∧
      diagnosis.character (bytesOf "2 é") = String.utf8EncodeChar 'é' ∧
      diagnosis.position < (bytesOf "2 é").length := by
  have refused : ({} : Context).parseBytes (bytesOf "2 é") =
      .error ⟨.unknownCharacter, 2⟩ := by
    with_unfolding_all rfl
  obtain ⟨_, whole, inside, atEnd, _⟩ := refusal_points_into_line {} refused
  refine ⟨_, refused, (whole (by decide)).trans (by decide), by decide, ?_⟩
  refine Nat.lt_of_le_of_ne inside fun same => ?_
  exact absurd ((Fault.ending_eq_iff _).mp (atEnd.mp same)) nofun

/-- No message is the whole report if the line has the byte zero. -/
theorem Context.not_every_report_whole :
    ¬ ∀ (context : Context) (line : Bytes) (diagnosis : Diagnosis),
        context.parseBytes line = .error diagnosis → ∃ headline place ending,
          diagnosis.message line = bytesOf "Error: " ++ headline ++ bytesOf ".\n" ++
            (line ++ bytesOf ("\n" ++ String.ofList (List.replicate place ' ') ++ "^~~~")) ++
            ending := by
  intro every
  have refused : ({} : Context).parseBytes (bytesOf "2 3\x00") =
      .error ⟨.trailing "3", 2⟩ := by
    with_unfolding_all rfl
  obtain ⟨headline, place, ending, same⟩ := every {} _ _ refused
  have cut := Bytes.not_mem_untilZero
    ((Diagnosis.mk (.trailing "3") 2).report (bytesOf "2 3\x00"))
  have shown : (0 : UInt8) ∈ bytesOf "2 3\x00" := by decide
  rw [show Bytes.untilZero _ = _ from same] at cut
  exact cut (by simp [shown])

end Reckoner
