import Reckoner.Proofs.Leaves
import Reckoner.Proofs.LiteralGrammar
/-!
# Reading back what has been read

A token that has been read is read again from its own text, if what stands behind it does not go on
with it. A name ends where no letter and no digit follows, and a name with a parenthesis directly
behind it is a function. A literal ends where no letter, digit or point follows, and where no sign
can be taken for that of an exponent: a valid literal does not end with the letter of an exponent,
unless it is of base sixteen, where the letter is a digit.
-/

namespace Reckoner

namespace Literal

/-- The text is a valid literal that begins with a digit, and its run is all of it. -/
def IsWhole : List Char → Prop
  | [] => False
  | first :: rest =>
    first.isDigit = true ∧ run first rest = ⟨first :: rest, false, []⟩ ∧
      valid (first :: rest) = true

/-- The character begins the exponent of a literal that is not of base sixteen. -/
def startsExponent (hex : Bool) (c : Char) : Bool := !hex && (c == 'e' || c == 'E')

/-- A character begins no exponent if something holds of it that does not hold of the letters of an
exponent. -/
theorem startsExponent_eq_false (property : Char → Bool)
    (others : property 'e' = false ∧ property 'E' = false) (hex : Bool) {c : Char}
    (holds : property c = true) : startsExponent hex c = false := by
  have small : c ≠ 'e' := by
    rintro rfl
    exact absurd holds (Bool.eq_false_iff.mp others.1)
  have capital : c ≠ 'E' := by
    rintro rfl
    exact absurd holds (Bool.eq_false_iff.mp others.2)
  simp [startsExponent, small, capital]

/-- A character is taken up into a run whatever follows it, or the run ends in front of it. -/
theorem runTail_cons_cases (hex afterExponent : Bool) (c : Char) :
    (∀ rest, runTail hex afterExponent (c :: rest) =
        (runTail hex (startsExponent hex c) rest).cons c) ∨
      ∀ rest, (runTail hex afterExponent (c :: rest)).characters = [] := by
  by_cases unit : (c == 'i') = true
  · refine Or.inr fun rest => ?_
    rw [runTail, if_pos unit]
  by_cases digit : (c.isDigit || c == '.') = true
  · have plain := startsExponent_eq_false (fun c => c.isDigit || c == '.') (by decide) hex digit
    refine Or.inl fun rest => ?_
    rw [runTail, if_neg unit, if_pos digit, plain]
  by_cases signed : (afterExponent && (c == '+' || c == '-')) = true
  · obtain ⟨_, sign⟩ := Bool.and_eq_true_iff.mp signed
    have plain := startsExponent_eq_false (fun c => c == '+' || c == '-') (by decide) hex sign
    refine Or.inl fun rest => ?_
    rw [runTail, if_neg unit, if_neg digit, if_pos signed, plain]
  by_cases letter : isLetter c = true
  · refine Or.inl fun rest => ?_
    rw [runTail, if_neg unit, if_neg digit, if_neg signed, if_pos letter]
    rfl
  · refine Or.inr fun rest => ?_
    rw [runTail, if_neg unit, if_neg digit, if_neg signed, if_neg letter]

/-- Characters that may stand in a name, without the imaginary unit, are taken up into a run. -/
theorem runTail_of_isNameChar {text : List Char}
    (each : ∀ c ∈ text, isNameChar c = true ∧ c ≠ 'i') (hex afterExponent : Bool) :
    runTail hex afterExponent text = ⟨text, false, []⟩ := by
  induction text generalizing afterExponent with
  | nil => rfl
  | cons c rest ih =>
    obtain ⟨⟨inName, noUnit⟩, others⟩ := List.forall_mem_cons.mp each
    rcases runTail_cons_cases hex afterExponent c with taken | ended
    · rw [taken, ih others]
      rfl
    · have other : (c == 'i') = false := beq_false_of_ne noUnit
      have alone : (runTail hex afterExponent [c]).characters ≠ [] := by
        rcases Bool.or_eq_true_iff.mp inName with letter | digit
        · -- A sign would be taken up as well.
          simp only [runTail, other, letter, Bool.false_eq_true, if_false, if_true]
          split
          · exact List.cons_ne_nil _ _
          · split <;> exact List.cons_ne_nil _ _
        · simp only [runTail, other, digit, Bool.true_or, Bool.false_eq_true, if_false, if_true]
          exact List.cons_ne_nil _ _
      exact absurd (ended []) alone

/-- The characters of a run are a run of their own. -/
theorem runTail_characters (hex afterExponent : Bool) (text : List Char) :
    runTail hex afterExponent (runTail hex afterExponent text).characters =
      ⟨(runTail hex afterExponent text).characters, false, []⟩ := by
  induction text generalizing afterExponent with
  | nil => rfl
  | cons c rest ih =>
    rcases runTail_cons_cases hex afterExponent c with taken | ended
    · rw [taken, Run.cons, taken, ih]
      rfl
    · rw [ended]
      rfl

/-- The marker of base sixteen belongs to the run. -/
theorem head?_characters (hex : Bool) (text : List Char) :
    ((runTail hex false text).characters.head? == some 'x') = (text.head? == some 'x') := by
  cases text with
  | nil => rfl
  | cons c rest =>
    rcases runTail_cons_cases hex false c with taken | ended
    · rw [taken]
      rfl
    · have other : c ≠ 'x' := by
        rintro rfl
        exact absurd (ended rest) (List.cons_ne_nil _ _)
      simp [ended, other]

/-- The spelling of a literal that is read is a literal as a whole. -/
theorem isWhole_spelled {first : Char} {rest : List Char}
    (start : (first.isDigit || first == '.') = true)
    (good : valid (spelled (run first rest).characters) = true) :
    IsWhole (spelled (run first rest).characters) := by
  by_cases point : first = '.'
  · subst point
    refine ⟨rfl, ?_, good⟩
    have tail := runTail_characters false false rest
    show (runTail false false ('.' :: (runTail false false rest).characters)).cons '0' = _
    rw [runTail, if_neg (by decide), if_pos (by decide), tail]
    rfl
  · have digit : first.isDigit = true := by simpa [point] using start
    have same : spelled (run first rest).characters = (run first rest).characters := by
      unfold spelled
      split
      · next others characters => exact absurd (List.cons.inj characters).1 point
      · rfl
    rw [same] at good ⊢
    refine ⟨digit, ?_, good⟩
    have tail := runTail_characters (first == '0' && rest.head? == some 'x') false rest
    rw [run, head?_characters, tail]
    rfl

/-- The letter of an exponent stands last, so a sign behind the text would belong to the run. -/
def takesSign (hex afterExponent : Bool) : List Char → Bool
  | [] => afterExponent
  | c :: rest => takesSign hex (startsExponent hex c) rest

/-- The operators, the closing parenthesis and the comma. -/
def enders : List Char := ['=', '+', '-', '*', '/', '%', '^', ')', ',']

/-- The text may stand behind a literal or the name of a constant: it is empty, or one of these
characters stands first. -/
def IsBehind (more : List Char) : Prop := ∀ c ∈ more.head?, c ∈ enders

/-- The text does not go on with a literal: it is empty, or a character stands first that is no
letter, no digit and no point. -/
def Ends (more : List Char) : Prop := ∀ c ∈ more.head?, isNameChar c = false ∧ c ≠ '.'

/-- What holds of the nine characters holds of each. -/
theorem of_mem_enders (property : Char → Bool) (each : enders.all property = true) {c : Char}
    (member : c ∈ enders) : property c = true :=
  List.all_eq_true.mp each c member

/-- What may stand behind a literal does not go on with it. -/
theorem IsBehind.ends {more : List Char} (behind : IsBehind more) : Ends more := by
  intro c next
  have plain : (!isNameChar c && c != '.') = true :=
    of_mem_enders (fun c => !isNameChar c && c != '.') (by decide) (behind c next)
  simpa using plain

/-- A run without its first character. -/
theorem eq_of_cons_eq {tail : Run} {c : Char} {text more : List Char} {imaginary : Bool}
    (same : tail.cons c = ⟨c :: text, imaginary, more⟩) : tail = ⟨text, imaginary, more⟩ := by
  obtain ⟨characters, unit, behind⟩ := tail
  simp only [Run.cons, Run.mk.injEq, List.cons.injEq, true_and] at same
  obtain ⟨rfl, rfl, rfl⟩ := same
  rfl

/-- If the run of a text is all of it, so is that of the text without its first character, and the
first character is taken up whatever follows it. -/
theorem runTail_cons_of_whole {hex afterExponent : Bool} {c : Char} {text : List Char}
    (whole : runTail hex afterExponent (c :: text) = ⟨c :: text, false, []⟩) :
    runTail hex (startsExponent hex c) text = ⟨text, false, []⟩ ∧
      ∀ more, runTail hex afterExponent (c :: more) =
        (runTail hex (startsExponent hex c) more).cons c := by
  rcases runTail_cons_cases hex afterExponent c with taken | ended
  · rw [taken] at whole
    exact ⟨eq_of_cons_eq whole, taken⟩
  · have characters := congrArg Run.characters whole
    rw [ended] at characters
    contradiction

/-- Behind a run stands its imaginary unit. -/
theorem runTail_append_unit {hex afterExponent : Bool} {text : List Char}
    (whole : runTail hex afterExponent text = ⟨text, false, []⟩) (more : List Char) :
    runTail hex afterExponent (text ++ 'i' :: more) = ⟨text, true, more⟩ := by
  induction text generalizing afterExponent with
  | nil => rfl
  | cons c rest ih =>
    obtain ⟨inner, step⟩ := runTail_cons_of_whole whole
    rw [List.cons_append, step, ih inner]
    rfl

/-- Behind a run stands something that ends it. -/
theorem runTail_append_end {hex afterExponent : Bool} {text more : List Char}
    (whole : runTail hex afterExponent text = ⟨text, false, []⟩)
    (settled : takesSign hex afterExponent text = false) (ends : Ends more) :
    runTail hex afterExponent (text ++ more) = ⟨text, false, more⟩ := by
  induction text generalizing afterExponent with
  | nil =>
    obtain rfl : afterExponent = false := settled
    cases more with
    | nil => rfl
    | cons c rest =>
      obtain ⟨other, noPoint⟩ := ends c rfl
      obtain ⟨noLetter, noDigit⟩ := Bool.or_eq_false_iff.mp other
      have noUnit : c ≠ 'i' := by
        rintro rfl
        exact absurd noLetter (by decide)
      simp [runTail, noUnit, noPoint, noDigit, noLetter]
  | cons c rest ih =>
    obtain ⟨inner, step⟩ := runTail_cons_of_whole whole
    rw [List.cons_append, step, ih inner settled]
    rfl

/-- In base sixteen no sign belongs to a run. -/
theorem takesSign_hex (text : List Char) : takesSign true false text = false := by
  induction text with
  | nil => rfl
  | cons c rest ih => exact ih

/-- A text that does not end with the letter of an exponent takes no sign. -/
theorem takesSign_eq_false (hex : Bool) {text : List Char}
    (last : ∀ c ∈ text.getLast?, startsExponent hex c = false) :
    takesSign hex false text = false := by
  cases text with
  | nil => rfl
  | cons c rest =>
    induction rest generalizing c with
    | nil => exact last c rfl
    | cons d more ih =>
      -- The first character does not count where a second one follows.
      show takesSign hex false (d :: more) = false
      apply ih
      rwa [List.getLast?_cons_cons] at last

/-- A valid literal takes no sign behind it. -/
theorem takesSign_of_valid {first : Char} {rest : List Char}
    (good : valid (first :: rest) = true) :
    takesSign (first == '0' && rest.head? == some 'x') false rest = false := by
  have tail {property : Char → Prop} (all : ∀ c ∈ (first :: rest).getLast?, property c) :
      ∀ c ∈ rest.getLast?, property c := by
    cases rest with
    | nil => exact nofun
    | cons c more => rwa [List.getLast?_cons_cons] at all
  have body := (valid_iff _).mp good
  generalize shape : first :: rest = text at body
  cases body with
  | @marked base digits nonempty each =>
    obtain ⟨rfl, rfl⟩ := List.cons.inj shape
    cases base with
    | hex => exact takesSign_hex _
    | binary | octal =>
      apply takesSign_eq_false
      rw [← List.singleton_append, List.getLast?_append_of_ne_nil _ nonempty]
      apply forall_getLast?_of_all
      exact fun c member => startsExponent_eq_false _ (by decide) _ (each c member)
  | decimal front back =>
    have ends := last_of_decimal front back
    rw [← shape] at ends
    apply takesSign_eq_false
    intro c last
    rcases tail ends c last with digit | rfl
    · exact startsExponent_eq_false Char.isDigit (by decide) _ digit
    · exact startsExponent_eq_false (· == '.') (by decide) _ rfl

/-- What does not begin with the marker of base sixteen does not make a text begin with it. -/
theorem head?_append_marker (rest : List Char) {more : List Char}
    (other : more.head? ≠ some 'x') :
    ((rest ++ more).head? == some 'x') = (rest.head? == some 'x') := by
  cases rest with
  | nil => simpa using other
  | cons c others => rfl

/-- A literal as a whole is its own run in front of what ends it. -/
theorem run_append_end {first : Char} {rest more : List Char} (whole : IsWhole (first :: rest))
    (ends : Ends more) :
    run first (rest ++ more) = ⟨first :: rest, false, more⟩ := by
  obtain ⟨_, alone, good⟩ := whole
  have other : more.head? ≠ some 'x' := fun head => absurd (ends 'x' head).1 (by decide)
  rw [run, head?_append_marker rest other,
    runTail_append_end (eq_of_cons_eq alone) (takesSign_of_valid good) ends]
  rfl

/-- A literal as a whole is its own run in front of its imaginary unit. -/
theorem run_append_unit {first : Char} {rest : List Char} (whole : IsWhole (first :: rest))
    (more : List Char) : run first (rest ++ 'i' :: more) = ⟨first :: rest, true, more⟩ := by
  obtain ⟨_, alone, _⟩ := whole
  have other : ('i' :: more).head? ≠ some 'x' := by simp
  rw [run, head?_append_marker rest other, runTail_append_unit (eq_of_cons_eq alone)]
  rfl

/-- A literal as a whole is its own run, with its imaginary unit or in front of what ends it. -/
theorem run_append {first : Char} {rest : List Char} (whole : IsWhole (first :: rest))
    (imaginary : Bool) {more : List Char} (ends : imaginary = false → Ends more) :
    run first ((rest ++ if imaginary then ['i'] else []) ++ more) =
      ⟨first :: rest, imaginary, more⟩ := by
  cases imaginary with
  | true =>
    rw [if_pos rfl, List.append_assoc]
    exact run_append_unit whole more
  | false =>
    rw [if_neg Bool.false_ne_true, List.append_nil]
    exact run_append_end whole (ends rfl)

/-- A literal as a whole is spelled as it is. -/
theorem spelled_of_isWhole {text : List Char} (whole : IsWhole text) : spelled text = text := by
  unfold spelled
  split
  · next rest =>
    obtain ⟨digit, _, _⟩ := whole
    contradiction
  · rfl

end Literal

/-- The text that a lexeme is written as: that of a literal ends with its imaginary unit. -/
def Lexeme.written : Lexeme → List Char
  | number spelling imaginary => spelling.toList ++ if imaginary then ['i'] else []
  | lexeme => lexeme.text.toList

/-- The lexeme can be read back: a literal is one as a whole, and a name is spelled as a name. The
reader knows no name. -/
def Lexeme.IsLegible : Lexeme → Prop
  | number spelling _ => Literal.IsWhole spelling.toList
  | constant origin name => origin = .unknown ∧ isName name = true
  | function origin name => origin = .unknown ∧ isName name = true
  | operator _ => True
  | mark _ => True

/-- The lexeme may stand in front of a text. -/
def Lexeme.Precedes (more : List Char) : Lexeme → Prop
  | number .. => Literal.IsBehind more
  | constant .. => Literal.IsBehind more
  | function .. => more.head? = some '('
  | operator _ => True
  | mark _ => True

/-- The text of lexemes without spaces between them. -/
def Lexeme.textOf (lexemes : List Lexeme) : List Char := lexemes.flatMap Lexeme.written

/-- Every lexeme can be read back and may stand in front of the text of those behind it. -/
def Lexeme.Readable : List Lexeme → Prop
  | [] => True
  | first :: rest => first.IsLegible ∧ first.Precedes (textOf rest) ∧ Readable rest

namespace Scan

/-- A token that is read can be read back. -/
theorem isLegible_token {start : Nat} {first : Char} {rest : List Char} {found : Token}
    (read : (token start first rest).1 = .ok found) : found.lexeme.IsLegible := by
  unfold token at read
  split at read
  · next letter =>
    obtain rfl := Except.ok.inj read
    have spelled : isName (String.ofList (first :: rest.takeWhile isNameChar)) = true := by
      simp [isName, letter, List.all_takeWhile]
    unfold name
    split <;> exact ⟨rfl, spelled⟩
  · split at read
    · next start =>
      simp only [literal] at read
      split at read
      · next good =>
        obtain rfl := Except.ok.inj read
        show Literal.IsWhole (String.ofList _).toList
        rw [String.toList_ofList]
        exact Literal.isWhole_spelled start good
      · contradiction
    · split at read
      · obtain rfl := Except.ok.inj read
        trivial
      · obtain rfl := Except.ok.inj read
        trivial
      · contradiction

/-- The character is none of those that separate tokens. -/
theorem isBlank_eq_false {c : Char} (shown : c.isDigit = true ∨ isLetter c = true) :
    isBlank c = false := by
  rw [Bool.eq_false_iff]
  intro blank
  rcases eq_of_isBlank blank with rfl | rfl | rfl | rfl | rfl | rfl <;> revert shown <;> decide

/-- A character of a name is not blank. -/
theorem isBlank_of_isNameChar {c : Char} (inName : isNameChar c = true) : isBlank c = false := by
  rcases Bool.or_eq_true_iff.mp inName with letter | digit
  · exact isBlank_eq_false (Or.inr letter)
  · exact isBlank_eq_false (Or.inl digit)

/-- Every character of a name may continue one. -/
theorem isNameChar_of_isName {text : String} (spelled : isName text = true) :
    ∀ c ∈ text.toList, isNameChar c = true := by
  unfold isName at spelled
  split at spelled
  · contradiction
  · next first rest shape =>
    obtain ⟨letter, each⟩ := Bool.and_eq_true_iff.mp spelled
    rw [shape, List.forall_mem_cons]
    exact ⟨Bool.or_eq_true_iff.mpr (Or.inl letter), List.all_eq_true.mp each⟩

/-- A digit is no letter. -/
theorem isLetter_of_isDigit {c : Char} (digit : c.isDigit = true) : isLetter c = false := by
  have other : c ≠ '_' := by
    rintro rfl
    exact absurd digit (by decide)
  simp only [Char.isDigit, Bool.and_eq_true, decide_eq_true_eq] at digit
  unfold isLetter Char.isAlpha Char.isUpper Char.isLower
  grind

/-- A name is read back in front of a character that does not belong to it. -/
theorem token_name {text : String} (spelled : isName text = true) {more : List Char}
    (ends : ∀ c ∈ more.head?, isNameChar c = false) (start : Nat) :
    ∃ first others, text.toList = first :: others ∧ isBlank first = false ∧
      token start first (others ++ more) =
        (.ok (name start first others more), more) := by
  unfold isName at spelled
  split at spelled
  · contradiction
  · next first others shape =>
    obtain ⟨letter, each⟩ := Bool.and_eq_true_iff.mp spelled
    refine ⟨first, others, shape, isBlank_eq_false (Or.inr letter), ?_⟩
    have split := takeWhile_append_of_head (List.all_eq_true.mp each) ends
    rw [token, if_pos letter, split.1, split.2]

/-- A literal is read back in front of what ends it. -/
theorem token_literal {text : List Char} (whole : Literal.IsWhole text) (imaginary : Bool)
    {more : List Char} (ends : Literal.Ends more) (start : Nat) :
    ∃ first others stop, (text ++ if imaginary then ['i'] else []) = first :: others ∧
      isBlank first = false ∧
      token start first (others ++ more) =
        (.ok ⟨.number (String.ofList text) imaginary, start, stop⟩, more) := by
  cases text with
  | nil => exact absurd whole id
  | cons first rest =>
    have digit : first.isDigit = true := whole.1
    have run := Literal.run_append whole imaginary fun _ => ends
    refine ⟨first, rest ++ if imaginary then ['i'] else [],
      start + (Literal.Run.mk (first :: rest) imaginary more).length - 1, rfl,
      isBlank_eq_false (Or.inl digit), ?_⟩
    rw [token, isLetter_of_isDigit digit, if_neg Bool.false_ne_true, digit, Bool.true_or,
      if_pos rfl, run]
    simp only [literal, Literal.spelled_of_isWhole whole, whole.2.2, if_true]

/-- A name is read as one. -/
theorem lexeme_name {text : String} {first : Char} {others : List Char}
    (shape : text.toList = first :: others) (start : Nat) (more : List Char) :
    name start first others more =
      ⟨if more.head? = some '(' then .function .unknown text else .constant .unknown text, start,
        start + others.length⟩ := by
  rw [name, ← shape, String.ofList_toList]

/-- A character that is no letter, no digit and no point is an operator or a mark. -/
theorem token_symbol {c : Char} (plain : isLetter c = false ∧ (c.isDigit || c == '.') = false)
    (start : Nat) (rest : List Char) : token start c rest =
      match Operator.ofChar? c, Mark.ofChar? c with
      | some operator, _ => (.ok ⟨.operator operator, start, start⟩, rest)
      | none, some mark => (.ok ⟨.mark mark, start, start⟩, rest)
      | none, none => (.error ⟨.unknownCharacter, start⟩, rest) := by
  have noLetter : ¬ isLetter c = true := Bool.eq_false_iff.mp plain.1
  have noDigit : ¬ (c.isDigit || c == '.') = true := Bool.eq_false_iff.mp plain.2
  exact (if_neg noLetter).trans (if_neg noDigit)

/-- A lexeme is read back in front of a text that it may stand in front of. -/
theorem exists_token_written {lexeme : Lexeme} (legible : lexeme.IsLegible) {more : List Char}
    (precedes : lexeme.Precedes more) (start : Nat) :
    ∃ first others stop, lexeme.written = first :: others ∧ isBlank first = false ∧
      token start first (others ++ more) = (.ok ⟨lexeme, start, stop⟩, more) := by
  cases lexeme with
  | number spelling imaginary =>
    obtain ⟨first, others, stop, shape, shown, read⟩ :=
      token_literal legible imaginary (Literal.IsBehind.ends precedes) start
    rw [String.ofList_toList] at read
    exact ⟨first, others, stop, shape, shown, read⟩
  | constant origin text =>
    have ends : ∀ c ∈ more.head?, isNameChar c = false := fun c next =>
      (Literal.IsBehind.ends precedes c next).1
    have other : more.head? ≠ some '(' := fun head => absurd (precedes '(' head) (by decide)
    obtain ⟨rfl, spelled⟩ := legible
    obtain ⟨first, others, shape, shown, read⟩ := token_name spelled ends start
    rw [lexeme_name shape, if_neg other] at read
    exact ⟨first, others, _, shape, shown, read⟩
  | function origin text =>
    have opens : more.head? = some '(' := precedes
    have ends : ∀ c ∈ more.head?, isNameChar c = false := by
      intro c first
      obtain rfl := Option.some.inj (opens.symm.trans first)
      rfl
    obtain ⟨rfl, spelled⟩ := legible
    obtain ⟨first, others, shape, shown, read⟩ := token_name spelled ends start
    rw [lexeme_name shape, if_pos opens] at read
    exact ⟨first, others, _, shape, shown, read⟩
  | operator operator =>
    refine ⟨operator.symbol, [], start, ?_, ?_, ?_⟩
    · cases operator <;> rfl
    · cases operator <;> decide
    · rw [token_symbol (by cases operator <;> decide), Operator.ofChar?_symbol]
      rfl
  | mark mark =>
    refine ⟨mark.symbol, [], start, ?_, ?_, ?_⟩
    · cases mark <;> rfl
    · cases mark <;> decide
    · rw [token_symbol (by cases mark <;> decide)]
      cases mark <;> rfl

/-- Lexemes are read back from their text. -/
theorem ofText_textOf {lexemes : List Lexeme} (readable : Lexeme.Readable lexemes) (start : Nat) :
    (ofText start (Lexeme.textOf lexemes)).tokens.map Token.lexeme = lexemes ∧
      (ofText start (Lexeme.textOf lexemes)).stop = none := by
  induction lexemes generalizing start with
  | nil =>
    rw [ofText_of_blank rfl]
    exact ⟨rfl, rfl⟩
  | cons lexeme rest ih =>
    obtain ⟨legible, precedes, further⟩ := readable
    obtain ⟨first, others, stop, shape, shown, read⟩ :=
      exists_token_written legible precedes start
    have text : Lexeme.textOf (lexeme :: rest) = first :: (others ++ Lexeme.textOf rest) := by
      rw [Lexeme.textOf, List.flatMap_cons, shape, List.cons_append]
      rfl
    have unread : (first :: (others ++ Lexeme.textOf rest)).dropWhile isBlank =
        first :: (others ++ Lexeme.textOf rest) := by
      rw [List.dropWhile_cons, shown]
      rfl
    have place : start + ((first :: (others ++ Lexeme.textOf rest)).takeWhile isBlank).length =
        start := by
      rw [List.takeWhile_cons, shown]
      rfl
    obtain ⟨tokens, ends⟩ := ih further (stop + 1)
    rw [text, ofText_of_ok unread place (congrArg Prod.fst read), read]
    exact ⟨congrArg _ tokens, ends⟩

end Scan

end Reckoner
