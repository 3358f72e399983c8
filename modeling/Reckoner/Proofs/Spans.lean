import Reckoner.Proofs.Literals
import Reckoner.Proofs.Reading
/-!
# Tokens and their bytes

The tokens of a line stand on slices of it, one behind the other, and what stands between them is
white space. So no byte of a line that is read to its end is lost, and none belongs to two tokens.
The text of a token is its slice, but for a number that ends with the imaginary unit or begins with
the point. This is so however the tokens are asked for, one at a time.
-/

namespace Reckoner

/-- The number of bytes of a text. -/
def byteLength (text : List Char) : Nat := (String.ofList text).utf8ByteSize

/-- The text of a string has its bytes. -/
theorem byteLength_toList (text : String) : byteLength text.toList = text.utf8ByteSize := by
  rw [byteLength, String.ofList_toList]

/-- The bytes of two texts add up. -/
theorem byteLength_append (front back : List Char) :
    byteLength (front ++ back) = byteLength front + byteLength back := by
  rw [byteLength, String.ofList_append, String.utf8ByteSize_append]
  rfl

/-- The bytes of a character and of a text add up. -/
theorem byteLength_cons (c : Char) (text : List Char) :
    byteLength (c :: text) = c.utf8Size + byteLength text := by
  rw [byteLength, String.ofList_cons, String.utf8ByteSize_append, String.utf8ByteSize_singleton]
  rfl

/-- The text consists of characters of one byte. -/
def IsAscii (text : List Char) : Prop := ∀ c ∈ text, c.utf8Size = 1

/-- Characters of one byte are as many as their bytes. -/
theorem IsAscii.byteLength_eq {text : List Char} (each : IsAscii text) :
    byteLength text = text.length := by
  induction text with
  | nil => rfl
  | cons c rest ih =>
    obtain ⟨first, others⟩ := List.forall_mem_cons.mp each
    rw [byteLength_cons, first, ih others, List.length_cons, Nat.add_comm]

/-- A text that is not empty has bytes. -/
theorem byteLength_pos {text : List Char} (long : text ≠ []) : 0 < byteLength text := by
  obtain ⟨c, rest, rfl⟩ := List.exists_cons_of_ne_nil long
  have least := c.utf8Size_pos
  rw [byteLength_cons]
  omega

/-- Blanks are characters of one byte. -/
theorem isAscii_of_blank {text : List Char} (blank : ∀ c ∈ text, isBlank c = true) :
    IsAscii text := by
  intro c member
  rcases eq_of_isBlank (blank c member) with rfl | rfl | rfl | rfl | rfl | rfl <;> decide

/-- The characters of a run are of one byte. -/
theorem Literal.isAscii_characters (hex afterExponent : Bool) (text : List Char) :
    IsAscii (runTail hex afterExponent text).characters := by
  fun_induction runTail hex afterExponent text with
  | case1 | case2 | case6 => exact List.forall_mem_nil _
  | case3 _ c rest _ digit ih =>
    refine List.forall_mem_cons.mpr ⟨?_, ih⟩
    rcases Bool.or_eq_true_iff.mp digit with decimal | point
    · exact utf8Size_of_isNameChar (Bool.or_eq_true_iff.mpr (Or.inr decimal))
    · rw [beq_iff_eq.mp point]
      decide
  | case4 _ c rest _ _ signed ih =>
    refine List.forall_mem_cons.mpr ⟨?_, ih⟩
    simp only [Bool.and_eq_true, Bool.or_eq_true, beq_iff_eq] at signed
    rcases signed.2 with rfl | rfl <;> decide
  | case5 _ c rest _ _ _ letter ih =>
    exact List.forall_mem_cons.mpr
      ⟨utf8Size_of_isNameChar (Bool.or_eq_true_iff.mpr (Or.inl letter)), ih⟩

/-- The lexeme is spelled by this slice of a line. The text of a number is without the imaginary
unit that the slice ends with, and with a zero in front of the point that it begins with. -/
def Lexeme.IsSpelledBy (span : List Char) : Lexeme → Prop
  | number spelling imaginary =>
    imaginary = (span.getLast? == some 'i') ∧
      spelling.toList = (if span.head? = some '.' then ['0'] else []) ++
        if imaginary then span.dropLast else span
  | lexeme => lexeme.text.toList = span

/-- A point that a text begins with is spelled with a zero in front. -/
theorem Literal.spelled_eq (text : List Char) :
    spelled text = (if text.head? = some '.' then ['0'] else []) ++ text := by
  unfold spelled
  split
  · rfl
  · next other =>
    have noPoint : text.head? ≠ some '.' := by
      intro head
      obtain ⟨rest, rfl⟩ := List.head?_eq_some_iff.mp head
      exact other rest rfl
    rw [if_neg noPoint]
    rfl

/-- The token of a literal is spelled by the literal. -/
theorem Token.isSpelledBy_ofLiteral (start : Nat) {span : List Char}
    (first : span.head? ≠ some 'i') : (ofLiteral start span).lexeme.IsSpelledBy span := by
  have body : (if (span.getLast? == some 'i') = true then span.dropLast else span).head? =
      span.head? := by
    split
    · next imaginary =>
      cases span with
      | nil => rfl
      | cons c rest =>
        cases rest with
        | nil =>
          have unit : some c = some 'i' := beq_iff_eq.mp imaginary
          exact absurd unit first
        | cons d more => rfl
    · rfl
  refine ⟨rfl, ?_⟩
  show (String.ofList (Literal.spelled _)).toList = _
  rw [String.toList_ofList, Literal.spelled_eq, body]

/-- The token stands on this span of a line, which begins at this byte: the span spells it, and has
as many bytes as characters. -/
structure Token.StandsOn (found : Token) (start : Nat) (span : List Char) : Prop where
  /-- The token begins with the span. -/
  begins : found.start = start
  /-- It ends with the last character of the span. -/
  ends : found.stop + 1 = start + span.length
  /-- The span spells it. -/
  spelled : found.lexeme.IsSpelledBy span
  /-- Its characters are of one byte. -/
  ascii : IsAscii span

namespace Scan

section

variable (start : Nat) {first : Char}

/-- A name stands on its characters. -/
theorem standsOn_name (letter : isLetter first = true) {others : List Char}
    (each : ∀ c ∈ others, isNameChar c = true) (behind : List Char) :
    (name start first others behind).StandsOn start (first :: others) where
  begins := rfl
  ends := Nat.add_assoc ..
  spelled := by
    unfold name
    split <;> exact String.toList_ofList
  ascii := List.forall_mem_cons.mpr
    ⟨utf8Size_of_isNameChar (Bool.or_eq_true_iff.mpr (Or.inl letter)),
      fun c member => utf8Size_of_isNameChar (each c member)⟩

/-- A number stands on the run that it is read from. -/
theorem standsOn_ofLiteral (begins : first.isDigit = true ∨ first = '.') (rest : List Char) :
    (Token.ofLiteral start (Literal.run first rest).span).StandsOn start
      (Literal.run first rest).span := by
  let tail := Literal.runTail (first == '0' && rest.head? == some 'x') false rest
  have parts : (Literal.run first rest).span = first :: tail.span := rfl
  have noUnit : (Literal.run first rest).span.head? ≠ some 'i' := by
    intro unit
    obtain rfl : first = 'i' := Option.some.inj unit
    exact absurd begins (by decide)
  have one : first.utf8Size = 1 := by
    rcases begins with digit | rfl
    · exact utf8Size_of_isNameChar (Bool.or_eq_true_iff.mpr (Or.inr digit))
    · decide
  have unit : IsAscii (if tail.imaginary then ['i'] else []) := by
    cases tail.imaginary with
    | true => exact List.forall_mem_singleton.mpr (by decide)
    | false => exact List.forall_mem_nil _
  refine ⟨rfl, ?_, Token.isSpelledBy_ofLiteral start noUnit, ?_⟩
  · rw [parts]
    exact Nat.sub_add_cancel (Nat.le_add_left 1 _)
  · rw [parts]
    exact List.forall_mem_cons.mpr
      ⟨one, List.forall_mem_append.mpr ⟨Literal.isAscii_characters _ _ _, unit⟩⟩

/-- An operator stands on its character. -/
theorem standsOn_operator (operator : Operator) :
    Token.StandsOn ⟨.operator operator, start, start⟩ start [operator.symbol] where
  begins := rfl
  ends := rfl
  spelled := String.toList_singleton operator.symbol
  ascii := by cases operator <;> exact List.forall_mem_singleton.mpr (by decide)

/-- A punctuation mark stands on its character. -/
theorem standsOn_mark (mark : Mark) :
    Token.StandsOn ⟨.mark mark, start, start⟩ start [mark.symbol] where
  begins := rfl
  ends := rfl
  spelled := String.toList_singleton mark.symbol
  ascii := by cases mark <;> exact List.forall_mem_singleton.mpr (by decide)

end

/-- A token stands on the front of the text that it is read from. -/
theorem token_spec {start : Nat} {first : Char} {rest : List Char} {found : Token}
    (read : (token start first rest).1 = .ok found) :
    ∃ span, span ≠ [] ∧ span ++ (token start first rest).2 = first :: rest ∧
      found.StandsOn start span := by
  by_cases letter : isLetter first = true
  · rw [token, if_pos letter] at read ⊢
    obtain rfl := Except.ok.inj read
    refine ⟨first :: rest.takeWhile isNameChar, List.cons_ne_nil _ _, ?_,
      standsOn_name start letter (List.all_eq_true.mp List.all_takeWhile) _⟩
    rw [List.cons_append, List.takeWhile_append_dropWhile]
  by_cases begins : first.isDigit = true ∨ first = '.'
  · obtain ⟨_, front, rfl⟩ := eq_ofLiteral start rest begins read
    exact ⟨_, List.cons_ne_nil _ _, front, standsOn_ofLiteral start begins rest⟩
  · have plain : isLetter first = false ∧ (first.isDigit || first == '.') = false := by
      simpa [letter] using begins
    rw [token_symbol plain] at read ⊢
    split at read
    · next operator known =>
      obtain rfl := Except.ok.inj read
      obtain rfl := Operator.eq_symbol_of_ofChar? known
      exact ⟨_, List.cons_ne_nil _ _, rfl, standsOn_operator start operator⟩
    · next mark _ known =>
      obtain rfl := Except.ok.inj read
      obtain rfl := Mark.eq_symbol_of_ofChar? known
      exact ⟨_, List.cons_ne_nil _ _, rfl, standsOn_mark start mark⟩
    · contradiction

/-- From a byte on, a text consists of tokens with blanks in front of each of them, and of what is
not read. -/
inductive Tiles : Nat → List Char → List Token → List Char → Prop
  /-- Nothing more is read. -/
  | unread (start : Nat) (text : List Char) : Tiles start text [] text
  /-- Behind blanks stands a token. -/
  | token {start : Nat} {gap span rest unread : List Char} {found : Token} {tokens : List Token}
    (blank : ∀ c ∈ gap, isBlank c = true) (long : span ≠ [])
    (ascii : IsAscii span) (begins : found.start = start + byteLength gap)
    (ends : found.stop + 1 = found.start + byteLength span)
    (spelled : found.lexeme.IsSpelledBy span)
    (further : Tiles (found.stop + 1) rest tokens unread) :
    Tiles start (gap ++ (span ++ rest)) (found :: tokens) unread

/-- The tokens of a text tile it. What is not read is blank if nothing stopped the reading. -/
theorem tiles_ofText (start : Nat) (text : List Char) :
    ∃ unread, Tiles start text (ofText start text).tokens unread ∧
      ((ofText start text).stop = none → ∀ c ∈ unread, isBlank c = true) := by
  induction start, text using ofText.induct with
  | case1 start text blank =>
    rw [ofText_of_blank blank]
    exact ⟨text, .unread start text, fun _ => List.dropWhile_eq_nil_iff.mp blank⟩
  | case2 start text first rest unread here diagnosis fault =>
    rw [ofText_of_error unread rfl fault]
    exact ⟨text, .unread start text, fun unstopped => absurd unstopped (Option.some_ne_none _)⟩
  | case3 start text first rest unread here found read ih =>
    rw [ofText_of_ok unread rfl read]
    obtain ⟨left, further, clear⟩ := ih
    obtain ⟨span, long, front, stands⟩ := token_spec read
    have blank : ∀ c ∈ text.takeWhile isBlank, isBlank c = true :=
      List.all_eq_true.mp List.all_takeWhile
    have whole : text.takeWhile isBlank ++ (span ++ (token here first rest).2) = text := by
      rw [front, ← unread, List.takeWhile_append_dropWhile]
    have place : found.start = start + byteLength (text.takeWhile isBlank) := by
      rw [stands.begins, (isAscii_of_blank blank).byteLength_eq]
    have ends : found.stop + 1 = found.start + byteLength span := by
      rw [stands.ends, stands.begins, stands.ascii.byteLength_eq]
    have tiles := Tiles.token blank long stands.ascii place ends stands.spelled further
    rw [whole] at tiles
    exact ⟨left, tiles, clear⟩

/-- The origins of names do not matter to the tiling. -/
theorem Tiles.resolve (context : Context) {start : Nat} {text unread : List Char}
    {tokens : List Token} (tiles : Tiles start text tokens unread) :
    Tiles start text (tokens.map (Token.resolve context)) unread := by
  induction tiles with
  | unread => exact .unread _ _
  | @token _ _ _ _ _ found _ blank long ascii begins ends spelled _ ih =>
    refine .token blank long ascii begins ends ?_ ih
    obtain ⟨lexeme, _, _⟩ := found
    cases lexeme <;> exact spelled

section

variable {start : Nat} {text unread : List Char} {tokens : List Token}

/-- Every token stands on its slice of the text. -/
theorem Tiles.slice (tiles : Tiles start text tokens unread) :
    ∀ found ∈ tokens, ∃ before span after, text = before ++ (span ++ after) ∧ span ≠ [] ∧
      IsAscii (before ++ span) ∧ found.start = start + byteLength before ∧
      found.stop + 1 = found.start + byteLength span ∧ found.lexeme.IsSpelledBy span := by
  induction tiles with
  | unread => exact nofun
  | @token start gap span rest unread found tokens blank long ascii begins ends spelled _ ih =>
    have front : IsAscii (gap ++ span) :=
      List.forall_mem_append.mpr ⟨isAscii_of_blank blank, ascii⟩
    refine List.forall_mem_cons.mpr
      ⟨⟨gap, span, rest, rfl, long, front, begins, ends, spelled⟩, ?_⟩
    intro other member
    obtain ⟨before, slice, after, rfl, nonempty, each, place, last, also⟩ := ih other member
    refine ⟨gap ++ (span ++ before), slice, after, ?_, nonempty, ?_, ?_, last, also⟩
    · simp only [List.append_assoc]
    · rw [← List.append_assoc, List.append_assoc]
      exact List.forall_mem_append.mpr ⟨front, each⟩
    · rw [byteLength_append, byteLength_append]
      omega

/-- The tokens stand one behind the other. -/
theorem Tiles.ordered (tiles : Tiles start text tokens unread) :
    tokens.Pairwise fun first second => first.stop < second.start := by
  induction tiles with
  | unread => exact .nil
  | token _ _ _ _ _ _ further ih =>
    refine .cons (fun other member => ?_) ih
    obtain ⟨before, _, _, _, _, _, place, _⟩ := further.slice other member
    omega

/-- A character of two texts behind each other stands in the first or in the second of them. -/
theorem append_eq_append_cons {front back before after : List Char} {c : Char}
    (same : front ++ back = before ++ c :: after) :
    (∃ more, front = before ++ c :: more) ∨
      ∃ left, before = front ++ left ∧ back = left ++ c :: after := by
  rcases List.append_eq_append_iff.mp same with ⟨left, rfl, tail⟩ | ⟨more, rfl, tail⟩
  · exact Or.inr ⟨left, rfl, tail⟩
  · cases more with
    | nil => exact Or.inr ⟨[], by rw [List.append_nil, List.append_nil], tail.symm⟩
    | cons d more =>
      obtain ⟨rfl, _⟩ := List.cons.inj tail
      exact Or.inl ⟨more, rfl⟩

/-- A character that belongs to no token is blank, if a token stands behind it or what is not read
is blank. -/
theorem Tiles.blank (tiles : Tiles start text tokens unread) {before after : List Char} {c : Char}
    (same : text = before ++ c :: after)
    (outside : ∀ found ∈ tokens, start + byteLength before < found.start ∨
      found.stop < start + byteLength before)
    (reached : (∀ c ∈ unread, isBlank c = true) ∨
      ∃ found ∈ tokens, start + byteLength before < found.start) : isBlank c = true := by
  induction tiles generalizing before with
  | unread start text =>
    rcases reached with all | ⟨found, member, _⟩
    · exact all c (same ▸ List.mem_append_right before List.mem_cons_self)
    · exact absurd member List.not_mem_nil
  | @token start gap span rest unread found tokens gaps long _ begins ends _ further ih =>
    obtain ⟨apart, others⟩ := List.forall_mem_cons.mp outside
    rcases append_eq_append_cons same with ⟨more, rfl⟩ | ⟨front, rfl, inText⟩
    · -- The character stands in front of the token.
      exact gaps c (List.mem_append_right before List.mem_cons_self)
    rw [byteLength_append] at apart others reached
    rcases append_eq_append_cons inText with ⟨more, rfl⟩ | ⟨left, rfl, inRest⟩
    · -- It stands in the token.
      have bytes := c.utf8Size_pos
      rw [byteLength_append, byteLength_cons] at ends
      omega
    · -- It stands behind the token.
      rw [byteLength_append] at others reached
      have place : start + (byteLength gap + (byteLength span + byteLength left)) =
          found.stop + 1 + byteLength left := by omega
      rw [place] at others reached
      refine ih inRest others (reached.imp_right ?_)
      rintro ⟨other, member, behind⟩
      rcases List.mem_cons.mp member with rfl | member
      · omega
      · exact ⟨other, member, behind⟩

end

/-- The tokens of a line divide it: every character belongs to one token, or it is a blank, or the
reading stopped in front of it. -/
structure Partitions (line : String) (scan : Scan) : Prop where
  /-- Every token stands on a slice of the line, which spells it. -/
  slice : ∀ found ∈ scan.tokens, ∃ before span after : String,
    line = before ++ span ++ after ∧ span ≠ "" ∧ before.utf8ByteSize = found.start ∧
      (before ++ span).utf8ByteSize = found.stop + 1 ∧ found.lexeme.IsSpelledBy span.toList
  /-- A token has a byte, and its last one is inside the line. -/
  inside : ∀ found ∈ scan.tokens, found.start ≤ found.stop ∧ found.stop < line.utf8ByteSize
  /-- A token ends in front of the tokens behind it. -/
  ordered : scan.tokens.Pairwise fun first second => first.stop < second.start
  /-- A character that belongs to no token is blank, if a token stands behind it or nothing stopped
  the reading. -/
  blank : ∀ (before : String) (c : Char) (after : String),
    line = before ++ String.singleton c ++ after →
    (∀ found ∈ scan.tokens, before.utf8ByteSize < found.start ∨
      found.stop < before.utf8ByteSize) →
    (scan.stop = none ∨ ∃ found ∈ scan.tokens, before.utf8ByteSize < found.start) →
    isBlank c = true

/-- Tokens that tile a line stand on slices of it. -/
theorem Tiles.slice_line {line : String} {unread : List Char} {tokens : List Token}
    (tiles : Tiles 0 line.toList tokens unread) :
    ∀ found ∈ tokens, ∃ before span after : String,
      line = before ++ span ++ after ∧ span ≠ "" ∧ before.utf8ByteSize = found.start ∧
        (before ++ span).utf8ByteSize = found.stop + 1 ∧
        found.lexeme.IsSpelledBy span.toList := by
  intro found member
  obtain ⟨before, span, after, text, long, _, begins, ends, spelled⟩ := tiles.slice found member
  refine ⟨String.ofList before, String.ofList span, String.ofList after, ?_, ?_, ?_, ?_, ?_⟩
  · rw [← String.ofList_append, ← String.ofList_append, List.append_assoc, ← text,
      String.ofList_toList]
  · intro empty
    rw [← String.toList_ofList (l := span), empty] at long
    exact long rfl
  · rw [begins, Nat.zero_add]
    rfl
  · rw [String.utf8ByteSize_append, ends, begins, Nat.zero_add]
    rfl
  · rwa [String.toList_ofList]

/-- The tokens of a line divide it. -/
theorem partitions_scan (context : Context) (line : String) :
    (context.scan line).Partitions line := by
  rw [context.scan_eq, ofLine_eq]
  obtain ⟨unread, tokens, clear⟩ := tiles_ofText 0 line.toList
  have tiles := tokens.resolve context
  refine ⟨tiles.slice_line, ?_, tiles.ordered, ?_⟩
  · intro found member
    obtain ⟨before, span, after, text, long, begins, ends, _⟩ := tiles.slice_line found member
    have least : 0 < span.utf8ByteSize := by
      rw [← byteLength_toList]
      exact byteLength_pos fun empty => long (String.toList_inj.mp empty)
    rw [text, String.utf8ByteSize_append]
    rw [String.utf8ByteSize_append] at ends ⊢
    omega
  · intro before c after text outside reached
    have same : line.toList = before.toList ++ c :: after.toList := by
      rw [text, String.toList_append, String.toList_append, String.toList_singleton,
        List.append_assoc]
      rfl
    have place : 0 + byteLength before.toList = before.utf8ByteSize := by
      rw [Nat.zero_add, byteLength_toList]
    rw [← place] at outside reached
    exact tiles.blank same outside (reached.imp_left clear)

end Scan

/-- The tokens of a line divide it, and a reader hands them out in order, whatever it is asked for
in between: the first ones, as many as the calls for the next token, until a call fails. No call
fails in front of the last token, and behind it the report is always the same: that of the character
or the number that is no token, or that no further token follows. -/
theorem Context.tokens_partition_line (context : Context) (line : String) :
    (context.scan line).Partitions line ∧
    ∀ calls : List Reader.Call,
      (Reader.run context calls (.ofLine line)).1 =
          (context.scan line).tokens.take (calls.count .next) ∧
        ((Reader.run context calls (.ofLine line)).2 = none ∧
            calls.count .next ≤ (context.scan line).tokens.length ∨
          (Reader.run context calls (.ofLine line)).2 =
              some ((context.scan line).stop.getD ⟨.noFurtherToken, line.utf8ByteSize⟩) ∧
            (context.scan line).tokens.length ≤ calls.count .next) := by
  refine ⟨Scan.partitions_scan context line, fun calls => ?_⟩
  have handed := Reader.handsOut_run context calls (.ofLine line)
  rwa [Reader.HandsOut, Reader.fault, Reader.remaining_ofLine] at handed

end Reckoner
