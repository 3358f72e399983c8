import Reckoner.Proofs.Readback
import Reckoner.Proofs.Spans
/-!
# White space between tokens

White space may be put into a line at its ends and between its tokens, at any number of places, and
the line has the same lexemes as before. Only a called name and its parenthesis have to stay
together, since what follows a name directly decides whether it is called. So an accepted line stays
accepted, with the same tree up to positions, and an expression is answered with the same value.
-/

namespace Reckoner

/-- The text with further characters in it: those for a byte stand in front of the character that
begins there. -/
def weave (extra : Nat → List Char) (place : Nat) : List Char → List Char
  | [] => []
  | c :: rest => extra place ++ c :: weave extra (place + c.utf8Size) rest

/-- The text with further characters in it and at its end. -/
def spread (extra : Nat → List Char) (place : Nat) (text : List Char) : List Char :=
  weave extra place text ++ extra (place + byteLength text)

/-- The line with further characters in it and at its end. -/
def spreadLine (extra : Nat → List Char) (line : String) : String :=
  String.ofList (spread extra 0 line.toList)

/-- The further characters are white space that leaves the tokens of a line as they are: it does not
stand inside a token, nor between a called name and its parenthesis. -/
structure Spaces (tokens : List Token) (extra : Nat → List Char) : Prop where
  /-- Nothing but white space is put in. -/
  blank : ∀ place, ∀ c ∈ extra place, isBlank c = true
  /-- Nothing is put into a token. -/
  outside : ∀ token ∈ tokens, ∀ place, token.start < place → place ≤ token.stop → extra place = []
  /-- Nothing is put behind a called name. -/
  together : ∀ token ∈ tokens, ∀ origin name, token.lexeme = .function origin name →
    extra (token.stop + 1) = []

section

variable (extra : Nat → List Char)

/-- Two texts behind each other are woven one after the other. -/
theorem weave_append (place : Nat) (front back : List Char) :
    weave extra place (front ++ back) =
      weave extra place front ++ weave extra (place + byteLength front) back := by
  induction front generalizing place with
  | nil => rfl
  | cons c rest ih =>
    rw [List.cons_append, weave, weave, ih, byteLength_cons, Nat.add_assoc, List.append_assoc,
      List.cons_append]

/-- Of two texts behind each other the second one keeps what is put at the end. -/
theorem spread_append (place : Nat) (front back : List Char) :
    spread extra place (front ++ back) =
      weave extra place front ++ spread extra (place + byteLength front) back := by
  rw [spread, spread, weave_append, byteLength_append, Nat.add_assoc, List.append_assoc]

/-- Nothing is put into a text if nothing stands at the bytes of its characters. -/
theorem weave_eq_self {place : Nat} {text : List Char}
    (outside : ∀ byte, place ≤ byte → byte < place + byteLength text → extra byte = []) :
    weave extra place text = text := by
  induction text generalizing place with
  | nil => rfl
  | cons c rest ih =>
    rw [byteLength_cons] at outside
    have bytes := c.utf8Size_pos
    have here : extra place = [] := outside place (Nat.le_refl _) (by omega)
    rw [weave, here, List.nil_append, ih fun byte low high => outside byte (by omega) (by omega)]

variable {extra} (blank : ∀ place, ∀ c ∈ extra place, isBlank c = true)

include blank

/-- Blanks with blanks in between are blanks. -/
theorem blank_weave (place : Nat) {text : List Char} (each : ∀ c ∈ text, isBlank c = true) :
    ∀ c ∈ weave extra place text, isBlank c = true := by
  induction text generalizing place with
  | nil => exact List.forall_mem_nil _
  | cons first rest ih =>
    obtain ⟨here, others⟩ := List.forall_mem_cons.mp each
    rw [weave, List.forall_mem_append, List.forall_mem_cons]
    exact ⟨blank place, here, ih (place + first.utf8Size) others⟩

omit blank in
/-- Where nothing is put in, a text begins as before. -/
theorem head?_spread_of_nil {place : Nat} (empty : extra place = []) (text : List Char) :
    (spread extra place text).head? = text.head? := by
  cases text with
  | nil =>
    have last : spread extra place [] = extra place := rfl
    rw [last, empty]
  | cons c rest => rw [spread, weave, empty, List.nil_append, List.cons_append, List.head?_cons,
      List.head?_cons]

/-- Where something is put in, a text begins with a blank. -/
theorem head?_spread_of_ne_nil {place : Nat} (nonempty : extra place ≠ []) (text : List Char) :
    ∀ c ∈ (spread extra place text).head?, isBlank c = true := by
  obtain ⟨first, others, shape⟩ := List.exists_cons_of_ne_nil nonempty
  have begins : (spread extra place text).head? = Option.some first := by
    cases text with
    | nil =>
      have last : spread extra place [] = extra place := rfl
      rw [last, shape, List.head?_cons]
    | cons c rest => rw [spread, weave, shape, List.cons_append, List.cons_append, List.head?_cons]
  rintro c member
  obtain rfl := Option.some.inj (begins.symm.trans member)
  exact blank place first (shape ▸ List.mem_cons_self)

end

/-- A character that may stand in a name or is the point is not blank. -/
theorem isNameChar_of_isBlank {c : Char} (blank : isBlank c = true) :
    isNameChar c = false ∧ c ≠ '.' ∧ c ≠ '(' := by
  rcases eq_of_isBlank blank with rfl | rfl | rfl | rfl | rfl | rfl <;> decide

namespace Literal

/-- A run without the imaginary unit goes as far as it can. -/
theorem ends_runTail (hex afterExponent : Bool) (text : List Char)
    (real : (runTail hex afterExponent text).imaginary = false) :
    Ends (runTail hex afterExponent text).behind := by
  fun_induction runTail hex afterExponent text with
  | case1 =>
    intro next impossible
    contradiction
  | case2 => contradiction
  | case3 _ _ _ _ _ ih | case4 _ _ _ _ _ _ ih | case5 _ _ _ _ _ _ _ ih => exact ih real
  | case6 afterExponent c rest other digit signed letter =>
    intro next same
    obtain rfl := Option.some.inj same
    simpa [isNameChar, Bool.eq_false_iff.mpr letter] using digit

end Literal

namespace Scan

/-- Behind a token a text goes on as before, or it goes on with a blank and the token is no called
name. -/
def GoesOn (found : Token) (behind back : List Char) : Prop :=
  back.head? = behind.head? ∨
    (∀ c ∈ back.head?, isBlank c = true) ∧ ∀ origin name, found.lexeme ≠ .function origin name

variable {start : Nat} {first : Char}

/-- A name is read in front of everything that goes on alike. -/
theorem token_name_goesOn (here : Nat) (letter : isLetter first = true)
    {others behind back : List Char} (each : ∀ c ∈ others, isNameChar c = true)
    (ends : ∀ c ∈ behind.head?, isNameChar c = false)
    (goesOn : GoesOn (name start first others behind) behind back) :
    ∃ again, token here first (others ++ back) = (.ok again, back) ∧
      again.lexeme = (name start first others behind).lexeme := by
  have alsoEnds : ∀ c ∈ back.head?, isNameChar c = false := by
    rcases goesOn with same | ⟨blank, _⟩
    · rwa [same]
    · exact fun c member => (isNameChar_of_isBlank (blank c member)).1
  have called : back.head? = some '(' ↔ behind.head? = some '(' := by
    rcases goesOn with same | ⟨blank, plain⟩
    · rw [same]
    · refine iff_of_false (fun open_ => ?_) fun open_ => ?_
      · exact (isNameChar_of_isBlank (blank '(' open_)).2.2 rfl
      · exact plain .unknown _ (by rw [name, if_pos open_])
  obtain ⟨front, rest⟩ := takeWhile_append_of_head each alsoEnds
  refine ⟨name here first others back, ?_, ?_⟩
  · rw [token, if_pos letter, front, rest]
  · simp only [name, called]

/-- A number is read in front of everything that goes on alike. -/
theorem token_number_goesOn (begins : first.isDigit = true ∨ first = '.')
    {rest back : List Char} {found : Token} (read : (token start first rest).1 = .ok found)
    (goesOn : GoesOn found (token start first rest).2 back) :
    ∃ more, first :: more ++ (token start first rest).2 = first :: rest ∧
      ∀ here, ∃ again, token here first (more ++ back) = (.ok again, back) ∧
        again.lexeme = found.lexeme := by
  obtain ⟨good, front, same⟩ := eq_ofLiteral start rest begins read
  have clean := unit_not_mem_run rest begins
  rw [token_run start rest begins] at goesOn
  -- The run is its first character and a tail, which stops where nothing more belongs to it.
  let tail := Literal.runTail (first == '0' && rest.head? == some 'x') false rest
  have ends : tail.imaginary = false → Literal.Ends back := by
    intro real
    rcases goesOn with next | ⟨blank, _⟩
    · rw [Literal.Ends, next]
      exact Literal.ends_runTail _ _ rest real
    · exact fun c member => (isNameChar_of_isBlank (blank c member)).imp_right And.left
  have run : Literal.run first ((tail.characters ++ if tail.imaginary then ['i'] else []) ++ back) =
      ⟨first :: tail.characters, tail.imaginary, back⟩ :=
    Literal.run_of_valid begins good tail.imaginary ends
  refine ⟨tail.characters ++ if tail.imaginary then ['i'] else [], front, fun here => ?_⟩
  refine ⟨⟨.number (String.ofList (Literal.spelled (first :: tail.characters))) tail.imaginary,
    here, here + Literal.Run.length ⟨first :: tail.characters, tail.imaginary, back⟩ - 1⟩, ?_, ?_⟩
  · rw [token_run here _ begins, run]
    exact Prod.ext (if_pos good) rfl
  · rw [same, ofLiteral_span start clean]
    rfl

/-- A token stands on the front of its text, and it is read anywhere in front of everything that
goes on alike. -/
theorem exists_token_goesOn {rest back : List Char} {found : Token}
    (read : (token start first rest).1 = .ok found)
    (goesOn : GoesOn found (token start first rest).2 back) :
    ∃ more, first :: more ++ (token start first rest).2 = first :: rest ∧
      ∀ here, ∃ again, token here first (more ++ back) = (.ok again, back) ∧
        again.lexeme = found.lexeme := by
  by_cases letter : isLetter first = true
  · rw [token, if_pos letter] at read goesOn ⊢
    obtain rfl := Except.ok.inj read
    have each : ∀ c ∈ rest.takeWhile isNameChar, isNameChar c = true :=
      List.all_eq_true.mp List.all_takeWhile
    have ends : ∀ c ∈ (rest.dropWhile isNameChar).head?, isNameChar c = false := by
      intro c member
      have outside := List.head?_dropWhile_not isNameChar rest
      rwa [Option.mem_def.mp member] at outside
    refine ⟨rest.takeWhile isNameChar, ?_,
      fun here => token_name_goesOn here letter each ends goesOn⟩
    rw [List.cons_append, List.takeWhile_append_dropWhile]
  by_cases begins : first.isDigit = true ∨ first = '.'
  · exact token_number_goesOn begins read goesOn
  · have plain : isLetter first = false ∧ (first.isDigit || first == '.') = false := by
      simpa [letter] using begins
    simp only [token_symbol plain] at read ⊢
    -- An operator and a mark are single characters, whatever follows.
    split at read
    · next operator known =>
      obtain rfl := Except.ok.inj read
      exact ⟨[], rfl, fun here => ⟨⟨.operator operator, here, here⟩, rfl, rfl⟩⟩
    · next mark plainMark known =>
      obtain rfl := Except.ok.inj read
      exact ⟨[], rfl, fun here => ⟨⟨.mark mark, here, here⟩, rfl, rfl⟩⟩
    · contradiction

/-- What stands in front of a token with white space in it is white space, and the token is whole
behind it. -/
theorem spread_token {extra : Nat → List Char}
    (blank : ∀ place, ∀ c ∈ extra place, isBlank c = true)
    {gap more : List Char} {found : Token} (gaps : ∀ c ∈ gap, isBlank c = true)
    (stands : found.StandsOn (start + byteLength gap) (first :: more))
    (outside : ∀ place, found.start < place → place ≤ found.stop → extra place = [])
    (behind : List Char) :
    ∃ blanks, (∀ c ∈ blanks, isBlank c = true) ∧
      spread extra start (gap ++ (first :: more ++ behind)) =
        blanks ++ first :: (more ++ spread extra (found.stop + 1) behind) := by
  have begins := stands.begins
  have ends := stands.ends
  have bytes := stands.ascii.byteLength_eq
  rw [byteLength_cons] at bytes
  have one := stands.ascii first List.mem_cons_self
  have whole : weave extra (start + byteLength gap + first.utf8Size) more = more := by
    refine weave_eq_self extra fun place low high => outside place ?_ ?_ <;> omega
  have place : start + byteLength gap + byteLength (first :: more) = found.stop + 1 := by
    rw [byteLength_cons]
    omega
  refine ⟨weave extra start gap ++ extra (start + byteLength gap), ?_, ?_⟩
  · exact List.forall_mem_append.mpr ⟨blank_weave blank start gaps, blank _⟩
  · rw [spread_append, spread_append, place, weave, whole]
    simp only [List.append_assoc, List.cons_append]

/-- A text that begins with a token is read with this token first. -/
theorem ofText_of_visible {rest back : List Char} {found : Token} (visible : ¬ isBlank first = true)
    (read : token start first rest = (.ok found, back)) :
    ofText start (first :: rest) =
      ⟨found :: (ofText (found.stop + 1) back).tokens, (ofText (found.stop + 1) back).stop⟩ := by
  have unread : (first :: rest).dropWhile isBlank = first :: rest :=
    List.dropWhile_cons_of_neg visible
  have place : start + ((first :: rest).takeWhile isBlank).length = start := by
    rw [List.takeWhile_cons_of_neg visible, List.length_nil, Nat.add_zero]
  rw [ofText_of_ok unread place (congrArg Prod.fst read), read]

/-- A text that is read to its end is read to its end with white space in it as well, with the same
lexemes. -/
theorem ofText_spread {extra : Nat → List Char} {start : Nat} {text : List Char}
    (spaces : Spaces (ofText start text).tokens extra) (read : (ofText start text).stop = none)
    (here : Nat) :
    (ofText here (spread extra start text)).tokens.map Token.lexeme =
        (ofText start text).tokens.map Token.lexeme ∧
      (ofText here (spread extra start text)).stop = none := by
  induction start, text using ofText.induct generalizing here with
  | case1 start text blank =>
    have gaps : ∀ c ∈ text, isBlank c = true := List.dropWhile_eq_nil_iff.mp blank
    have alsoBlank : (spread extra start text).dropWhile isBlank = [] :=
      List.dropWhile_eq_nil_iff.mpr
        (List.forall_mem_append.mpr ⟨blank_weave spaces.blank start gaps, spaces.blank _⟩)
    rw [ofText_of_blank blank, ofText_of_blank alsoBlank]
    exact ⟨rfl, rfl⟩
  | case2 start text first rest unread place diagnosis fault =>
    rw [ofText_of_error unread rfl fault] at read
    contradiction
  | case3 start text first rest unread place found taken ih =>
    rw [ofText_of_ok unread rfl taken] at spaces read ⊢
    obtain ⟨outside, others⟩ := List.forall_mem_cons.mp spaces.outside
    obtain ⟨together, apart⟩ := List.forall_mem_cons.mp spaces.together
    have gaps : ∀ c ∈ text.takeWhile isBlank, isBlank c = true :=
      List.all_eq_true.mp List.all_takeWhile
    have visible : ¬ isBlank first = true := by
      have head := List.head?_dropWhile_not isBlank text
      rw [unread] at head
      exact Bool.eq_false_iff.mp head
    -- What follows the token begins as before, or with a blank.
    have goesOn : GoesOn found (token place first rest).2
        (spread extra (found.stop + 1) (token place first rest).2) := by
      by_cases empty : extra (found.stop + 1) = []
      · exact Or.inl (head?_spread_of_nil empty _)
      · exact Or.inr ⟨head?_spread_of_ne_nil spaces.blank empty _,
          fun origin name called => empty (together origin name called)⟩
    obtain ⟨more, front, reads⟩ := exists_token_goesOn taken goesOn
    obtain ⟨span, _, also, stands⟩ := token_spec taken
    obtain rfl : span = first :: more := List.append_cancel_right (also.trans front.symm)
    have begins : place = start + byteLength (text.takeWhile isBlank) := by
      rw [(isAscii_of_blank gaps).byteLength_eq]
    rw [begins] at stands
    obtain ⟨blanks, clear, shape⟩ :=
      spread_token spaces.blank gaps stands outside (token place first rest).2
    rw [front, ← unread, List.takeWhile_append_dropWhile] at shape
    obtain ⟨again, readAgain, same⟩ := reads (here + blanks.length)
    have further := ih ⟨spaces.blank, others, apart⟩ read (again.stop + 1)
    rw [shape, ofText_blanks_append clear, ofText_of_visible visible readAgain]
    exact ⟨congrArg₂ List.cons same further.1, further.2⟩

end Scan

/-- Origins do not matter to where white space may stand. -/
theorem Spaces.of_resolve {context : Context} {tokens : List Token} {extra : Nat → List Char}
    (spaces : Spaces (tokens.map (Token.resolve context)) extra) : Spaces tokens extra where
  blank := spaces.blank
  outside token member := spaces.outside (token.resolve context) (List.mem_map_of_mem member)
  together token member origin name called := by
    refine spaces.together (token.resolve context) (List.mem_map_of_mem member)
      (context.functionOrigin name) name ?_
    rw [Token.resolve, called]
    rfl

/-- Scans to the end with the same lexemes differ in positions only. -/
theorem Scan.relabel_unplaced_eq {first second : Scan}
    (lexemes : first.tokens.map Token.lexeme = second.tokens.map Token.lexeme)
    (firstEnds : first.stop = none) (secondEnds : second.stop = none) :
    first.relabel .unplaced = second.relabel .unplaced := by
  have tokens (scan : Scan) : scan.tokens.map (Token.relabel .unplaced) =
      (scan.tokens.map Token.lexeme).map
        fun lexeme => ⟨lexeme.relabel .unplaced, 0, 0⟩ := by
    rw [List.map_map]
    rfl
  rw [relabel, relabel, tokens, tokens, lexemes, firstEnds, secondEnds]

namespace Context

/-- A line with white space in it has the tree of the line, up to positions. -/
theorem exists_lineTree_spread {line : String} {plain : Expr} {extra : Nat → List Char}
    (spaces : Spaces (Scan.ofLine line).tokens extra) (read : lineTree line = .ok plain) :
    ∃ again, lineTree (spreadLine extra line) = .ok again ∧
      again.relabel .unplaced = plain.relabel .unplaced := by
  have ends := ((Scan.tree_eq_ok_iff ..).mp read).1
  rw [Scan.ofLine_eq] at spaces ends
  obtain ⟨lexemes, alsoEnds⟩ := Scan.ofText_spread spaces ends 0
  have scan : Scan.ofLine (spreadLine extra line) = Scan.ofText 0 (spread extra 0 line.toList) := by
    rw [Scan.ofLine_eq, spreadLine, String.toList_ofList]
  have same := Scan.relabel_unplaced_eq lexemes alsoEnds ends
  rw [← scan, ← Scan.ofLine_eq] at same
  have relabelled : Build.relabelResult .unplaced (Expr.relabel .unplaced)
        (lineTree (spreadLine extra line)) =
      Build.relabelResult .unplaced (Expr.relabel .unplaced) (lineTree line) := by
    rw [lineTree, lineTree, ← Scan.tree_relabel, ← Scan.tree_relabel, same]
    rfl
  rw [read] at relabelled
  cases readAgain : lineTree (spreadLine extra line) with
  | error diagnosis =>
    rw [readAgain] at relabelled
    contradiction
  | ok again =>
    rw [readAgain] at relabelled
    exact ⟨again, rfl, Except.ok.inj relabelled⟩

/-- Two lines with the same tree up to positions are accepted alike. -/
theorem exists_parse_of_unplaced {context : Context} {line other : String} {tree : Expr}
    (parsed : context.parse line = .ok tree)
    (reads : ∀ plain, lineTree line = .ok plain → ∃ again, lineTree other = .ok again ∧
      again.relabel .unplaced = plain.relabel .unplaced) :
    ∃ again, context.parse other = .ok again ∧
      again.relabel .unplaced = tree.relabel .unplaced := by
  obtain ⟨found, accepted⟩ := (context.parse_eq_ok_iff ..).mp parsed
  obtain ⟨plain, read, rfl⟩ := (context.tree_eq_ok_iff ..).mp found
  obtain ⟨again, readAgain, same⟩ := reads plain read
  have labelled : (again.relabel (.resolve context)).relabel .unplaced =
      (plain.relabel (.resolve context)).relabel .unplaced := by
    have resolved := congrArg (Expr.relabel (.resolve context)) same
    rw [Expr.relabel_relabel, Expr.relabel_relabel] at resolved ⊢
    exact resolved
  have formed : context.WellFormed (again.relabel (.resolve context)) := by
    rw [← wellFormed_unplaced_iff, labelled, wellFormed_unplaced_iff, ← check_relabel_eq_ok_iff]
    exact accepted
  refine ⟨again.relabel (.resolve context), ?_, labelled⟩
  rw [parse_eq_ok_iff, tree_eq_ok_iff]
  exact ⟨⟨again, readAgain, rfl⟩, (check_relabel_eq_ok_iff again).mpr formed⟩

/-- Trees that differ in positions only have the same value. -/
theorem evaluate_eq_of_unplaced (context : Context) {first second : Expr}
    (same : first.relabel .unplaced = second.relabel .unplaced) :
    context.evaluate first = context.evaluate second := by
  rw [evaluate, evaluate, ← eval?_unplaced, same, eval?_unplaced]

/-- White space at the ends of an accepted line and between its tokens, but for the place between a
called name and its parenthesis, leaves the line accepted, with the same tree up to positions. Such
a line is answered with the same value as before if it is an expression, and leaves the same context
behind. -/
theorem parse_spread (context : Context) {line : String} {tree : Expr}
    {extra : Nat → List Char} (parsed : context.parse line = .ok tree)
    (spaces : Spaces (context.scan line).tokens extra) :
    ∃ again, context.parse (spreadLine extra line) = .ok again ∧
      again.relabel .unplaced = tree.relabel .unplaced ∧
      (IsExpression tree → context.enter (spreadLine extra line) = context.enter line) := by
  obtain ⟨again, parsedAgain, same⟩ := exists_parse_of_unplaced parsed fun plain read =>
    exists_lineTree_spread spaces.of_resolve read
  refine ⟨again, parsedAgain, same, fun expression => ?_⟩
  have alsoExpression : IsExpression again := by
    rwa [← isExpression_relabel_iff .unplaced, same, isExpression_relabel_iff]
  rw [enter_expression context parsed expression,
    enter_expression context parsedAgain alsoExpression, evaluate_eq_of_unplaced context same]

/-- White space in front of a line of thirteen bytes, behind its opening parenthesis, in front of
its operator and at its end. -/
def roomyExtra : Nat → List Char
  | 0 => [' ']
  | 4 => ['\t']
  | 6 => [' ', '\n']
  | 13 => ['\r', ' ']
  | _ => []

/-- A sum of a call and a literal without its zero is read through white space. -/
theorem parse_spread_roomyExtra :
    spreadLine roomyExtra "sin(2)+.5e-3i" = " sin(\t2) \n+.5e-3i\r " ∧
      ∃ tree again, Context.parse {} "sin(2)+.5e-3i" = .ok tree ∧
        Context.parse {} " sin(\t2) \n+.5e-3i\r " = .ok again ∧
        again.relabel .unplaced = tree.relabel .unplaced ∧
        Context.enter {} " sin(\t2) \n+.5e-3i\r " = Context.enter {} "sin(2)+.5e-3i" := by
  have line : spreadLine roomyExtra "sin(2)+.5e-3i" = " sin(\t2) \n+.5e-3i\r " := by
    with_unfolding_all rfl
  have parsed : Context.parse {} "sin(2)+.5e-3i" =
      .ok (.binary .add 6 (.call .builtIn "sin" 2 [.number "2" false 4])
        (.number "0.5e-3" true 12)) := by
    with_unfolding_all rfl
  have tokens : (Context.scan {} "sin(2)+.5e-3i").tokens =
      [⟨.function .builtIn "sin", 0, 2⟩, ⟨.mark .opening, 3, 3⟩, ⟨.number "2" false, 4, 4⟩,
        ⟨.mark .closing, 5, 5⟩, ⟨.operator .add, 6, 6⟩, ⟨.number "0.5e-3" true, 7, 12⟩] := by
    with_unfolding_all rfl
  have spaces : Spaces (Context.scan {} "sin(2)+.5e-3i").tokens roomyExtra := by
    rw [tokens]
    refine ⟨fun place => ?_, fun token member place low high => ?_,
      fun token member origin name called => ?_⟩
    · unfold roomyExtra
      split <;> simp [isBlank]
    · simp only [List.mem_cons, List.not_mem_nil, or_false] at member
      rcases member with rfl | rfl | rfl | rfl | rfl | rfl <;> unfold roomyExtra <;> split <;>
        first | rfl | simp at low high
    · simp only [List.mem_cons, List.not_mem_nil, or_false] at member
      rcases member with rfl | rfl | rfl | rfl | rfl | rfl <;> first | rfl | contradiction
  obtain ⟨again, parsedAgain, same, entered⟩ := parse_spread {} parsed spaces
  rw [line] at parsedAgain entered
  have expression : IsExpression _ :=
    (isExpression_binary_iff .add 6 (.call .builtIn "sin" 2 [.number "2" false 4])
      (.number "0.5e-3" true 12)).mpr (by decide)
  exact ⟨line, _, again, parsed, parsedAgain, same, entered expression⟩

end Context

end Reckoner
