import Reckoner.Proofs.Legible
/-!
# Tokens that are literals

A token that begins with a digit or the point is a number literal with an optional imaginary unit,
and every such literal is one token in front of white space, an operator or a mark. There is one
exception: a point has a zero put in front of it before the digits are looked for, so a point
without any digit is taken for a literal as well. All other texts are refused as broken numbers.
-/

namespace Reckoner

namespace Literal

/-- The characters that a run takes up in the text: its imaginary unit belongs to them. -/
def Run.span (run : Run) : List Char := run.characters ++ if run.imaginary then ['i'] else []

/-- A run takes up as many characters as it has. -/
theorem Run.length_span (run : Run) : run.span.length = run.length := by
  rw [span, length, List.length_append]
  split <;> rfl

/-- A run is the front of its text. -/
theorem span_append_behind (hex afterExponent : Bool) (text : List Char) :
    (runTail hex afterExponent text).span ++ (runTail hex afterExponent text).behind = text := by
  fun_induction runTail hex afterExponent text with
  | case1 => rfl
  | case2 afterExponent c rest unit =>
    rw [beq_iff_eq.mp unit]
    rfl
  | case3 _ c rest _ _ ih | case4 _ c rest _ _ _ ih | case5 _ c rest _ _ _ _ ih =>
    exact congrArg (c :: ·) ih
  | case6 => rfl

/-- The imaginary unit does not belong to the characters of a run. -/
theorem unit_not_mem_characters (hex afterExponent : Bool) (text : List Char) :
    'i' ∉ (runTail hex afterExponent text).characters := by
  fun_induction runTail hex afterExponent text with
  | case1 | case2 | case6 => exact List.not_mem_nil
  | case3 _ c rest other _ ih | case4 _ c rest other _ _ ih | case5 _ c rest other _ _ _ ih =>
    intro member
    rcases List.mem_cons.mp member with same | among
    · exact other (beq_iff_eq.mpr same.symm)
    · exact ih among

/-- A digit of a base may stand in a name and is not the imaginary unit. -/
theorem isNameChar_of_isDigit {base : Base} {c : Char} (digit : base.isDigit c = true) :
    isNameChar c = true ∧ c ≠ 'i' := by
  have hasValue : (digitValue? c).isSome = true := by
    unfold Base.isDigit at digit
    cases value : digitValue? c with
    | none =>
      rw [value] at digit
      exact absurd digit Bool.false_ne_true
    | some => rfl
  have kinds : c.isDigit = true ∨ ('a' ≤ c ∧ c ≤ 'f') ∨ ('A' ≤ c ∧ c ≤ 'F') := by
    unfold digitValue? at hasValue
    grind
  refine ⟨?_, ?_⟩
  · rcases kinds with decimal | ⟨low, high⟩ | ⟨low, high⟩
    · simp [isNameChar, decimal]
    · have small : c.isLower = true := by
        unfold Char.isLower
        simp only [Bool.and_eq_true, decide_eq_true_eq]
        exact ⟨low, UInt32.le_trans high (by decide)⟩
      unfold isNameChar isLetter Char.isAlpha
      simp [small]
    · have capital : c.isUpper = true := by
        unfold Char.isUpper
        simp only [decide_eq_true_eq]
        exact ⟨low, UInt32.le_trans high (by decide)⟩
      unfold isNameChar isLetter Char.isAlpha
      simp [capital]
  · rintro rfl
    exact absurd kinds (by decide)

/-- Digits and points are taken up into a run. -/
theorem runTail_append {hex : Bool} {front back : List Char}
    (each : ∀ c ∈ front, c.isDigit = true ∨ c = '.')
    (whole : runTail hex false back = ⟨back, false, []⟩) :
    runTail hex false (front ++ back) = ⟨front ++ back, false, []⟩ := by
  induction front with
  | nil => exact whole
  | cons c rest ih =>
    obtain ⟨first, others⟩ := List.forall_mem_cons.mp each
    have noUnit : c ≠ 'i' := by
      rintro rfl
      exact absurd first (by decide)
    rw [List.cons_append, runTail, if_neg (by simpa using noUnit), if_pos (by simpa using first),
      ih others]
    rfl

/-- Digits are taken up into a run, behind the letter of an exponent as well. -/
theorem runTail_digits {digits : List Char} (each : IsDigits digits) (hex afterExponent : Bool) :
    runTail hex afterExponent digits = ⟨digits, false, []⟩ := by
  apply runTail_of_isNameChar
  intro c member
  have digit := each c member
  refine ⟨Bool.or_eq_true_iff.mpr (Or.inr digit), ?_⟩
  rintro rfl
  exact absurd digit (by decide)

/-- An exponent is taken up into a run with its sign. -/
theorem runTail_exponent {exponent : List Char} (back : IsExponent exponent) :
    runTail false false exponent = ⟨exponent, false, []⟩ := by
  cases back with
  | absent => rfl
  | @present mark sign digits letter signed nonempty each =>
    have marked : runTail false false (mark :: (sign ++ digits)) =
        (runTail false true (sign ++ digits)).cons mark := by
      rcases letter with rfl | rfl <;> rfl
    have behind : runTail false true (sign ++ digits) = ⟨sign ++ digits, false, []⟩ := by
      rcases signed with rfl | rfl | rfl
      · exact runTail_digits each false true
      · exact congrArg (Run.cons '+') (runTail_digits each false false)
      · exact congrArg (Run.cons '-') (runTail_digits each false false)
    rw [marked, behind]
    rfl

/-- A literal that begins with a digit is a literal as a whole. -/
theorem isWhole_of_isBody {first : Char} {rest : List Char} (body : IsBody (first :: rest))
    (digit : first.isDigit = true) : IsWhole (first :: rest) := by
  refine ⟨digit, ?_, (valid_iff _).mpr body⟩
  have tail : runTail (first == '0' && rest.head? == some 'x') false rest = ⟨rest, false, []⟩ := by
    generalize shape : first :: rest = text at body
    cases body with
    | @marked base digits nonempty each =>
      obtain ⟨rfl, rfl⟩ := List.cons.inj shape
      apply runTail_of_isNameChar
      rw [List.forall_mem_cons]
      refine ⟨?_, fun c member => isNameChar_of_isDigit (each c member)⟩
      cases base <;> decide
    | @decimal mantissa exponent front back =>
      have unmarked : (first == '0' && rest.head? == some 'x') = false := by
        rw [Bool.eq_false_iff]
        intro marked
        obtain ⟨zero, letter⟩ := Bool.and_eq_true_iff.mp marked
        obtain ⟨digits, rfl⟩ := List.head?_eq_some_iff.mp (beq_iff_eq.mp letter)
        have known := (isSome_decimal?_iff _).mpr ⟨_, _, shape, front, back⟩
        have refused : decimal? ('0' :: 'x' :: digits) = none := decimal?_marked .hex digits
        rw [beq_iff_eq.mp zero, refused] at known
        exact Bool.false_ne_true known
      obtain ⟨c, digits, rfl⟩ := List.exists_cons_of_ne_nil front.ne_nil
      obtain ⟨rfl, rfl⟩ := List.cons.inj shape
      rw [unmarked]
      exact runTail_append (List.forall_mem_cons.mp front.each).2 (runTail_exponent back)
  rw [run, tail]
  rfl

/-- A literal or a bare point at the front of a text is the run of the text, with its imaginary unit
or in front of what ends it. -/
theorem run_of_valid {first : Char} {rest : List Char}
    (begins : first.isDigit = true ∨ first = '.')
    (good : valid (spelled (first :: rest)) = true) (imaginary : Bool) {more : List Char}
    (ends : imaginary = false → Ends more) :
    run first ((rest ++ if imaginary then ['i'] else []) ++ more) =
      ⟨first :: rest, imaginary, more⟩ := by
  rcases begins with digit | rfl
  · have same : spelled (first :: rest) = first :: rest := by
      unfold spelled
      split
      · next shape =>
        rw [(List.cons.inj shape).1] at digit
        exact absurd digit (by decide)
      · rfl
    rw [same, valid_iff] at good
    exact run_append (isWhole_of_isBody good digit) imaginary ends
  · have body : IsBody ('0' :: '.' :: rest) := (valid_iff _).mp good
    have behind := run_append (isWhole_of_isBody body rfl) imaginary ends
    -- The run of the text is that of the text behind a zero, without the zero.
    have front : run '0' (('.' :: rest ++ if imaginary then ['i'] else []) ++ more) =
        (run '.' ((rest ++ if imaginary then ['i'] else []) ++ more)).cons '0' := rfl
    rw [front] at behind
    exact eq_of_cons_eq behind

/-- A number literal: it may end with the imaginary unit. -/
def IsLiteral (span : List Char) : Prop :=
  ∃ body, IsBody body ∧ (span = body ∨ span = body ++ ['i'])

/-- A bare point that takes the place of a literal: it may end with the imaginary unit as well. -/
def IsPoint (span : List Char) : Prop :=
  ∃ body, IsBarePoint body ∧ (span = body ∨ span = body ++ ['i'])

/-- Literals and bare points are the valid spellings with or without the imaginary unit. -/
theorem isLiteral_or_isPoint_iff (span : List Char) :
    IsLiteral span ∨ IsPoint span ↔
      ∃ (body : List Char) (imaginary : Bool), valid (spelled body) = true ∧
        span = body ++ if imaginary then ['i'] else [] := by
  constructor
  · have ended {body : List Char} (good : valid (spelled body) = true)
        (same : span = body ∨ span = body ++ ['i']) :
        ∃ (body : List Char) (imaginary : Bool), valid (spelled body) = true ∧
          span = body ++ if imaginary then ['i'] else [] := by
      rcases same with rfl | rfl
      · exact ⟨span, false, good, (List.append_nil span).symm⟩
      · exact ⟨body, true, good, rfl⟩
    rintro (⟨body, shape, same⟩ | ⟨body, shape, same⟩)
    · exact ended ((valid_spelled_iff body).mpr (Or.inl shape)) same
    · exact ended ((valid_spelled_iff body).mpr (Or.inr shape)) same
  · rintro ⟨body, imaginary, good, rfl⟩
    have same : (body ++ if imaginary then ['i'] else []) = body ∨
        (body ++ if imaginary then ['i'] else []) = body ++ ['i'] := by
      cases imaginary with
      | true => exact Or.inr rfl
      | false => exact Or.inl (List.append_nil body)
    exact ((valid_spelled_iff body).mp good).imp (⟨body, ·, same⟩) (⟨body, ·, same⟩)

/-- White space, an operator or a punctuation mark. -/
def separates (c : Char) : Bool :=
  isBlank c || (Operator.ofChar? c).isSome || (Mark.ofChar? c).isSome

/-- A text that begins with a separator does not go on with a literal. -/
theorem ends_of_separates {more : List Char} (next : ∀ c ∈ more.head?, separates c = true) :
    Ends more := by
  intro c first
  have separator := next c first
  simp only [separates, Bool.or_eq_true] at separator
  rcases separator with (blank | operator) | mark
  · rcases eq_of_isBlank blank with rfl | rfl | rfl | rfl | rfl | rfl <;> decide
  · obtain ⟨operator, known⟩ := Option.isSome_iff_exists.mp operator
    rw [Operator.eq_symbol_of_ofChar? known]
    cases operator <;> decide
  · obtain ⟨mark, known⟩ := Option.isSome_iff_exists.mp mark
    rw [Mark.eq_symbol_of_ofChar? known]
    cases mark <;> decide

end Literal

/-- The token of a literal that stands at a byte. It is imaginary if the literal ends with the
imaginary unit, which is left out of its text, and a zero is put in front of a point. -/
def Token.ofLiteral (start : Nat) (span : List Char) : Token :=
  let imaginary := span.getLast? == some 'i'
  let body := if imaginary then span.dropLast else span
  ⟨.number (String.ofList (Literal.spelled body)) imaginary, start, start + span.length - 1⟩

namespace Scan

/-- What a run takes up in the text determines its token. -/
theorem ofLiteral_span (start : Nat) {run : Literal.Run} (clean : 'i' ∉ run.characters) :
    Token.ofLiteral start run.span =
      ⟨.number (String.ofList (Literal.spelled run.characters)) run.imaginary, start,
        start + run.length - 1⟩ := by
  obtain ⟨characters, imaginary, behind⟩ := run
  rw [Token.ofLiteral, Literal.Run.length_span]
  cases imaginary with
  | true => simp [Literal.Run.span]
  | false =>
    have last : (characters.getLast? == some 'i') = false := by
      rw [beq_eq_false_iff_ne]
      exact fun same => clean (List.mem_of_getLast? same)
    simp [Literal.Run.span, last]

/-- A token that begins with a digit or the point is that of a run. -/
theorem token_run (start : Nat) {first : Char} (rest : List Char)
    (begins : first.isDigit = true ∨ first = '.') :
    token start first rest = (literal start (Literal.run first rest),
      (Literal.run first rest).behind) := by
  have noLetter : isLetter first = false := by
    rcases begins with digit | rfl
    · exact isLetter_of_isDigit digit
    · rfl
  have shown : (first.isDigit || first == '.') = true := by simpa using begins
  rw [token, noLetter, if_neg Bool.false_ne_true, if_pos shown]

section

variable (start : Nat) {first : Char} (rest : List Char)
  (begins : first.isDigit = true ∨ first = '.')

include begins

/-- The imaginary unit does not belong to the characters of a run that begins a number. -/
theorem unit_not_mem_run : 'i' ∉ (Literal.run first rest).characters := by
  intro member
  rcases List.mem_cons.mp member with rfl | among
  · exact absurd begins (by decide)
  · exact Literal.unit_not_mem_characters _ _ _ among

/-- A number is the token of its run, which is the front of the text and valid. -/
theorem eq_ofLiteral {found : Token} (read : (token start first rest).1 = .ok found) :
    Literal.valid (Literal.spelled (Literal.run first rest).characters) = true ∧
      (Literal.run first rest).span ++ (token start first rest).2 = first :: rest ∧
      found = .ofLiteral start (Literal.run first rest).span := by
  have clean := unit_not_mem_run rest begins
  rw [token_run start rest begins] at read ⊢
  simp only [literal] at read
  split at read
  · next good =>
    obtain rfl := Except.ok.inj read
    have front : (Literal.run first rest).span ++ (Literal.run first rest).behind =
        first :: rest :=
      congrArg (first :: ·) (Literal.span_append_behind _ _ rest)
    exact ⟨good, front, (ofLiteral_span start clean).symm⟩
  · contradiction

/-- A token that begins with a digit or with the point is a number, and what it takes up of the text
is a literal or a bare point. Every literal, and every bare point, is one token, if the text ends
with it or a separator follows. Otherwise the text is refused, since the number is broken. -/
theorem token_numeric :
    (∀ found, (token start first rest).1 = .ok found →
      ∃ span, (Literal.IsLiteral span ∨ Literal.IsPoint span) ∧
        first :: rest = span ++ (token start first rest).2 ∧ found = .ofLiteral start span) ∧
    (∀ span behind, Literal.IsLiteral span ∨ Literal.IsPoint span →
      first :: rest = span ++ behind → (∀ c ∈ behind.head?, Literal.separates c = true) →
      token start first rest = (.ok (.ofLiteral start span), behind)) ∧
    ∀ diagnosis, (token start first rest).1 = .error diagnosis →
      ∃ shown, diagnosis.fault = .brokenNumber shown := by
  refine ⟨?_, ?_, ?_⟩
  · intro found read
    obtain ⟨good, front, same⟩ := eq_ofLiteral start rest begins read
    have taken := (Literal.isLiteral_or_isPoint_iff (Literal.run first rest).span).mpr
      ⟨_, _, good, rfl⟩
    exact ⟨_, taken, front.symm, same⟩
  · intro span behind taken text next
    obtain ⟨body, imaginary, good, rfl⟩ := (Literal.isLiteral_or_isPoint_iff span).mp taken
    cases body with
    | nil => exact absurd good (by decide)
    | cons c others =>
      obtain ⟨rfl, same⟩ := List.cons.inj text
      have run := Literal.run_of_valid begins good imaginary fun _ =>
        Literal.ends_of_separates next
      rw [← List.append_eq, ← List.append_eq, ← same] at run
      have whole : Literal.Run.span ⟨first :: others, imaginary, behind⟩ =
          first :: others ++ if imaginary then ['i'] else [] := rfl
      have clean := unit_not_mem_run rest begins
      rw [token_run start rest begins]
      rw [run] at clean ⊢
      rw [← whole, ofLiteral_span start clean, literal]
      simp only [good, if_true]
  · intro diagnosis fault
    rw [token_run start rest begins] at fault
    simp only [literal] at fault
    split at fault
    · contradiction
    · obtain rfl := Except.error.inj fault
      exact ⟨_, rfl⟩

end

/-- An imaginary literal with a fraction, an exponent and a sign is one token if a blank follows. -/
theorem token_numeric_fraction :
    (('.').isDigit = true ∨ '.' = '.') ∧ Literal.IsLiteral ".5e-3i".toList ∧
      token 2 '.' "5e-3i +1".toList = (.ok ⟨.number "0.5e-3" true, 2, 7⟩, " +1".toList) := by
  have begins : ('.').isDigit = true ∨ '.' = '.' := Or.inr rfl
  have digit (c : Char) (known : c.isDigit = true) : Literal.IsDigits [c] :=
    List.forall_mem_singleton.mpr known
  have body : Literal.IsBody ".5e-3".toList :=
    .decimal (.fraction (List.cons_ne_nil _ _) (digit '5' rfl))
      (.present (Or.inl rfl) (Or.inr (Or.inr rfl)) (List.cons_ne_nil _ _) (digit '3' rfl))
  have literal : Literal.IsLiteral ".5e-3i".toList := ⟨_, body, Or.inr rfl⟩
  have separated : ∀ c ∈ " +1".toList.head?, Literal.separates c = true := by
    intro c next
    obtain rfl : ' ' = c := Option.some.inj next
    rfl
  have read := (token_numeric 2 "5e-3i +1".toList begins).2.1 ".5e-3i".toList " +1".toList
    (Or.inl literal) rfl separated
  exact ⟨begins, literal, read⟩

/-- Not every number token is a literal: a point without digits is one. -/
theorem not_every_number_literal :
    ¬ ∀ (start : Nat) (first : Char) (rest : List Char), first.isDigit = true ∨ first = '.' →
        ∀ found, (token start first rest).1 = .ok found → ∃ span, Literal.IsLiteral span ∧
          first :: rest = span ++ (token start first rest).2 := by
  intro every
  obtain ⟨span, ⟨body, literal, same⟩, text⟩ :=
    every 0 '.' [] (Or.inr rfl) ⟨.number "0." false, 0, 0⟩ rfl
  have alone : ['.'] = span := text.trans (List.append_nil span)
  rw [← alone] at same
  rw [← Literal.valid_iff] at literal
  rcases same with rfl | ended
  · exact absurd literal (by decide)
  · have last := congrArg List.getLast? ended
    rw [List.getLast?_concat] at last
    exact absurd last (by decide)

end Scan

end Reckoner
