import Reckoner.Proofs.Legible
import Reckoner.Proofs.Sessions
import Reckoner.Proofs.WellFormed
/-!
# Which lines are taken for commands

A line is looked at twice: first word by word, for a command, and then token by token, for the
calculator. A definition is never taken for a command. An expression of several tokens is taken for
one exactly if it begins with a constant of the user that has the name of a command, with white
space and an operator behind it.
-/

namespace Reckoner

/-- A phrase that begins with `leaf`, by the tokens behind that one: it is `leaf`, or an operator
joins such a phrase to what follows. -/
inductive Leads (leaf : Phrase) : List Token → Phrase → Prop
  /-- Nothing follows. -/
  | alone : Leads leaf [] leaf
  /-- An operator follows a phrase that begins with `leaf`. -/
  | joined {front behind : List Token} {joint : Token} {operator : Operator} {left right : Phrase}
    (first : Leads leaf front left) (shape : joint.lexeme = .operator operator) :
    Leads leaf (front ++ joint :: behind) (.binary operator joint.stop left right)

/-- What is derived from tokens that begin with a constant begins with that constant. -/
theorem Derives.leads {category : Nonterminal} {tokens : List Token} {phrases : List Phrase}
    (derives : Derives category tokens phrases) (single : category ≠ .arguments)
    {token : Token} {rest : List Token} (begins : tokens = token :: rest) {origin : Origin}
    {name : String} (shape : token.lexeme = .constant origin name) :
    ∃ phrase, phrases = [phrase] ∧ Leads (.constant origin name token.stop) rest phrase := by
  induction derives generalizing rest with
  | @joined category joint front behind left right result first joins second ih _ =>
    cases joins with
    | comma => contradiction
    | operator joint among left right =>
      -- The left operand has a first token, so that is the constant, and the operand begins with
      -- it.
      obtain ⟨head, front, rfl, _⟩ := first.exists_cons
      obtain ⟨rfl, rfl⟩ := List.cons.inj begins
      obtain ⟨_, same, leads⟩ := ih single rfl
      obtain rfl := List.singleton_inj.mp same
      exact ⟨_, rfl, .joined leads joint⟩
  | @only category _ _ higher _ ih =>
    refine ih ?_ begins
    cases category <;> simp [Nonterminal.operand] at single ⊢
  | constant leaf =>
    obtain ⟨rfl, rfl⟩ := List.cons.inj begins
    rw [leaf] at shape
    obtain ⟨rfl, rfl⟩ := Lexeme.constant.inj shape
    exact ⟨_, rfl, .alone⟩
  | signed other | number other | emptyCall other | call other | group other =>
    obtain ⟨rfl, _⟩ := List.cons.inj begins
    rw [other] at shape
    contradiction

namespace Leads

variable {origin : Origin} {name : String} {place : Nat} {phrase : Phrase}

/-- The constant at the beginning is a node of the tree. -/
theorem mem_nodes {tokens : List Token}
    (leads : Leads (.constant origin name place) tokens phrase) :
    .constant origin name place ∈ phrase.expr.nodes := by
  induction leads with
  | alone => exact List.mem_singleton_self _
  | joined _ _ ih =>
    rw [Phrase.expr, Expr.nodes]
    exact List.mem_cons_of_mem _ (List.mem_append_left _ ih)

/-- The token behind the constant is an operator. -/
theorem exists_operator {leaf : Phrase} {second : Token} {rest tokens : List Token}
    (leads : Leads leaf tokens phrase) (several : tokens = second :: rest) :
    ∃ operator, second.lexeme = .operator operator := by
  induction leads generalizing rest with
  | alone => contradiction
  | @joined front _ joint operator _ _ _ shape ih =>
    cases front with
    | nil =>
      obtain ⟨rfl, _⟩ := List.cons.inj several
      exact ⟨operator, shape⟩
    | cons head front =>
      obtain ⟨rfl, _⟩ := List.cons.inj several
      exact ih rfl

/-- If a name or a call is assigned to, the constant is that name and the token behind it is the
assignment. -/
theorem assign {second : Token} {rest : List Token}
    (leads : Leads (.constant origin name place) (second :: rest) phrase) {position : Nat}
    {left right : Expr} (tree : phrase.expr = .binary .assign position left right)
    (plain : ∀ operator position first last, left ≠ .binary operator position first last) :
    second.lexeme = .operator .assign := by
  generalize several : second :: rest = tokens at leads
  cases leads with
  | alone => contradiction
  | joined first shape =>
    obtain ⟨rfl, _, rfl, _⟩ := Expr.binary.inj tree
    cases first with
    | alone =>
      obtain ⟨rfl, _⟩ := List.cons.inj several
      exact shape
    | joined => exact absurd rfl (plain _ _ _ _)

end Leads

/-- The runs of a text between white space. -/
def runsOf (text : List Char) : List (List Char) :=
  (text.splitOnP isBlank).filter fun run => !run.isEmpty

/-- A blank in front of a text leaves its runs. -/
theorem runsOf_cons_of_blank {c : Char} (blank : isBlank c = true) (text : List Char) :
    runsOf (c :: text) = runsOf text := by
  rw [runsOf, runsOf, List.splitOnP_cons_eq_if_modifyHead, if_pos blank]
  rfl

/-- White space in front of a text does not matter for its runs. -/
theorem runsOf_dropWhile (text : List Char) : runsOf (text.dropWhile isBlank) = runsOf text := by
  induction text with
  | nil => rfl
  | cons c text ih =>
    rw [List.dropWhile_cons]
    split
    · next blank => rw [ih, runsOf_cons_of_blank blank]
    · rfl

/-- A run that white space or the end follows is the first run, and the others are those behind it.
-/
theorem runsOf_append {run rest : List Char} (long : run ≠ [])
    (solid : ∀ c ∈ run, isBlank c = false) (ends : ∀ c ∈ rest.head?, isBlank c = true) :
    runsOf (run ++ rest) = run :: runsOf rest := by
  have kept : (!run.isEmpty) = true := by simpa using long
  cases rest with
  | nil =>
    rw [List.append_nil, runsOf, List.splitOnP_eq_singleton solid, List.filter_cons, if_pos kept]
    rfl
  | cons c rest =>
    have blank := ends c rfl
    rw [runsOf_cons_of_blank blank, runsOf, List.splitOnP_append_cons_of_forall_mem solid c blank,
      List.filter_cons, if_pos kept]
    rfl

/-- A text is blank and has no runs, or its first run is what stands in front of the first white
space behind its beginning, and the others are the runs behind it. -/
theorem runsOf_cases (text : List Char) :
    text.dropWhile isBlank = [] ∧ runsOf text = [] ∨
      ∃ run rest, text.dropWhile isBlank = run ++ rest ∧ run ≠ [] ∧
        (∀ c ∈ run, isBlank c = false) ∧ (∀ c ∈ rest.head?, isBlank c = true) ∧
        runsOf text = run :: runsOf rest := by
  rw [← runsOf_dropWhile text]
  cases unread : text.dropWhile isBlank with
  | nil => exact Or.inl ⟨rfl, rfl⟩
  | cons c more =>
    have solidHead : isBlank c = false := by
      have fails := List.head?_dropWhile_not isBlank text
      rw [unread] at fails
      simpa using fails
    have parts := List.takeWhile_append_dropWhile (p := fun c => !isBlank c) (l := c :: more)
    have long : (c :: more).takeWhile (fun c => !isBlank c) ≠ [] := by
      rw [List.takeWhile_cons, solidHead]
      exact List.cons_ne_nil _ _
    have solid : ∀ d ∈ (c :: more).takeWhile (fun c => !isBlank c), isBlank d = false := by
      intro d member
      simpa using List.mem_takeWhile_imp member
    have ends : ∀ d ∈ ((c :: more).dropWhile fun c => !isBlank c).head?, isBlank d = true := by
      intro d first
      have fails := List.head?_dropWhile_not (fun c => !isBlank c) (c :: more)
      rw [Option.mem_def.mp first] at fails
      simpa using fails
    have runs := runsOf_append long solid ends
    rw [parts] at runs
    exact Or.inr ⟨_, _, parts.symm, long, solid, ends, runs⟩

/-- The words of a line are its runs. -/
theorem words_eq_map_runsOf (line : String) :
    words line = (runsOf line.toList).map String.ofList := rfl

namespace Scan

/-- The first token of a text that goes on with a name in front of white space is that name. -/
theorem exists_tokens_of_name (start : Nat) {text rest : List Char} {name : String}
    (spelled : isName name = true) (unread : text.dropWhile isBlank = name.toList ++ rest)
    (ends : ∀ c ∈ rest.head?, isBlank c = true) : ∃ first last,
      (ofText start text).tokens =
        ⟨.constant .unknown name, first, last⟩ :: (ofText (last + 1) rest).tokens := by
  have noName : ∀ c ∈ rest.head?, isNameChar c = false := by
    intro c first
    by_contra inName
    have solid := isBlank_of_isNameChar (Bool.eq_true_of_not_eq_false inName)
    exact absurd ((ends c first).symm.trans solid) (by decide)
  have noCall : rest.head? ≠ some '(' := fun first => absurd (ends _ first) (by decide)
  let here := start + (text.takeWhile isBlank).length
  obtain ⟨first, others, shape, _, read⟩ := token_name spelled noName here
  rw [shape, List.cons_append] at unread
  refine ⟨here, here + others.length, ?_⟩
  rw [ofText_of_ok unread rfl (congrArg Prod.fst read), read, Scan.name, if_neg noCall, ← shape,
    String.ofList_toList]

/-- A token that is an operator has its character. -/
theorem eq_symbol_of_token {start : Nat} {first : Char} {rest : List Char} {found : Token}
    {operator : Operator} (read : (token start first rest).1 = .ok found)
    (shape : found.lexeme = .operator operator) : first = operator.symbol := by
  unfold token at read
  split at read
  · obtain rfl := Except.ok.inj read
    unfold name at shape
    split at shape <;> contradiction
  · split at read
    · unfold literal at read
      simp only at read
      split at read
      · obtain rfl := Except.ok.inj read
        contradiction
      · contradiction
    · split at read
      · next known =>
        obtain rfl := Except.ok.inj read
        obtain rfl := Lexeme.operator.inj shape
        exact Operator.eq_symbol_of_ofChar? known
      · obtain rfl := Except.ok.inj read
        contradiction
      · contradiction

/-- A text whose first token is an operator goes on with its character. -/
theorem head?_of_operator {start : Nat} {text : List Char} {second : Token} {others : List Token}
    {operator : Operator} (tokens : (ofText start text).tokens = second :: others)
    (shape : second.lexeme = .operator operator) :
    (text.dropWhile isBlank).head? = some operator.symbol := by
  cases unread : text.dropWhile isBlank with
  | nil =>
    rw [ofText_of_blank unread] at tokens
    contradiction
  | cons c rest =>
    cases read : (token (start + (text.takeWhile isBlank).length) c rest).1 with
    | error diagnosis =>
      rw [ofText_of_error unread rfl read] at tokens
      contradiction
    | ok found =>
      rw [ofText_of_ok unread rfl read] at tokens
      obtain ⟨rfl, _⟩ := List.cons.inj tokens
      exact congrArg some (eq_symbol_of_token read shape)

end Scan

namespace Verb

/-- The verb of a name has that name. -/
theorem eq_name_of_ofName? {text : String} {verb : Verb} (known : ofName? text = some verb) :
    text = verb.name := by
  unfold ofName? at known
  split at known
  all_goals first
    | contradiction
    | (obtain rfl := Option.some.inj known; rfl)

/-- The verb of the name of a verb is that verb. -/
theorem ofName?_name (verb : Verb) : ofName? verb.name = some verb := by
  cases verb <;> rfl

/-- The names of verbs are spelled as names. -/
theorem isName_name (verb : Verb) : isName verb.name = true := by
  cases verb <;> decide

/-- The names of verbs are no built-in constants. -/
theorem builtInConstant?_name (verb : Verb) : builtInConstant? verb.name = none := by
  cases verb <;> rfl

end Verb

/-- An operator that assigns nothing does not continue a definition or a call. -/
theorem Invocation.continuesInput_eq_false {word : String} {operator : Operator}
    (head : word.toList.head? = some operator.symbol) (other : operator ≠ .assign) :
    continuesInput word = false := by
  obtain ⟨rest, shape⟩ := List.head?_eq_some_iff.mp head
  rw [continuesInput, shape]
  cases operator <;> first | rfl | contradiction

/-- A word that begins with an assignment continues a definition. -/
theorem Invocation.continuesInput_assign {word : String}
    (head : word.toList.head? = some Operator.assign.symbol) : continuesInput word = true := by
  obtain ⟨rest, shape⟩ := List.head?_eq_some_iff.mp head
  rw [continuesInput, shape]
  rfl

namespace Context

variable (context : Context)

/-- The line begins with a constant of the user that has the name of a command, and the next word
begins with an operator that assigns nothing. -/
def Clashes (line : String) : Prop :=
  ∃ (verb : Verb) (operator : Operator) (second : String) (others : List String),
    words line = verb.name :: second :: others ∧ second.toList.head? = some operator.symbol ∧
      operator ≠ .assign ∧ context.constants.contains verb.name = true

/-- A line whose first word is a name begins with the token of that name, and the other words and
tokens are those of the rest. -/
theorem exists_tokens_of_words {line name : String} {arguments : List String}
    (spelled : isName name = true) (split : words line = name :: arguments) :
    ∃ first last rest, (context.scan line).tokens =
        ⟨.constant (context.constantOrigin name) name, first, last⟩ ::
          (Scan.ofText (last + 1) rest).tokens.map (Token.resolve context) ∧
      arguments = (runsOf rest).map String.ofList := by
  rw [words_eq_map_runsOf] at split
  rcases runsOf_cases line.toList with ⟨_, blank⟩ | ⟨run, rest, unread, _, _, ends, runs⟩
  · rw [blank] at split
    contradiction
  · rw [runs] at split
    obtain ⟨rfl, rfl⟩ := List.cons.inj split
    rw [← String.toList_ofList (l := run)] at unread
    obtain ⟨first, last, tokens⟩ := Scan.exists_tokens_of_name 0 spelled unread ends
    refine ⟨first, last, rest, ?_, rfl⟩
    rw [scan_eq, Scan.resolve, Scan.ofLine_eq, tokens]
    rfl

/-- A checked tree that begins with a constant in front of a token that assigns nothing is an
expression. -/
theorem isExpression_of_leads {tree : Expr} (accepted : context.check tree = .ok ())
    {origin : Origin} {name : String} {place : Nat} {second : Token} {others : List Token}
    {phrase : Phrase} (leads : Leads (.constant origin name place) (second :: others) phrase)
    (same : phrase.expr = tree) (other : second.lexeme ≠ .operator .assign) :
    IsExpression tree := by
  rintro position left right rfl
  refine other (leads.assign same ?_)
  rcases check_definition_cases context accepted with ⟨_, _, _, rfl⟩ | ⟨_, _, _, _, rfl⟩ <;>
    exact fun _ _ _ _ => nofun

/-- The constant that an accepted expression begins with is one of the user, if it is not built in.
-/
theorem contains_of_leads {line : String} {tree : Expr} (parsed : context.parse line = .ok tree)
    (expression : IsExpression tree) {name : String} {place : Nat} {tokens : List Token}
    {phrase : Phrase}
    (leads : Leads (.constant (context.constantOrigin name) name place) tokens phrase)
    (same : phrase.expr = tree) (free : builtInConstant? name = none) :
    context.constants.contains name = true := by
  obtain ⟨found, accepted⟩ := (context.parse_eq_ok_iff ..).mp parsed
  obtain ⟨plain, _, rfl⟩ := (context.tree_eq_ok_iff ..).mp found
  have formed := (check_relabel_eq_ok_iff plain).mp accepted
  have sound := (wellFormed_expression_iff expression).mp formed
  have fits := sound _ (same ▸ leads.mem_nodes)
  rw [fits_constant_iff] at fits
  by_contra absent
  refine List.not_mem_nil (fits ?_)
  rw [constantOrigin, free, if_neg (by decide), if_neg absent]

/-- In an accepted line of several tokens whose first word is the name of a command, the next word
begins with an operator. If that assigns nothing, the line is an expression and the name is that of
a constant of the user. -/
theorem exists_operator_of_words {line : String} {tree : Expr}
    (parsed : context.parse line = .ok tree) (several : 2 ≤ (context.scan line).tokens.length)
    {verb : Verb} {arguments : List String} (split : words line = verb.name :: arguments) :
    ∃ operator second others, arguments = second :: others ∧
      second.toList.head? = some (Operator.symbol operator) ∧
      (operator ≠ .assign → IsExpression tree ∧
        context.constants.contains verb.name = true) := by
  obtain ⟨found, accepted⟩ := (context.parse_eq_ok_iff ..).mp parsed
  rw [context.tree_eq] at found
  obtain ⟨_, phrase, derives, same⟩ := (Scan.tree_eq_ok_iff ..).mp found
  obtain ⟨first, last, rest, tokens, rfl⟩ :=
    context.exists_tokens_of_words verb.isName_name split
  obtain ⟨_, single, leads⟩ := derives.leads (by decide) tokens rfl
  obtain rfl := List.singleton_inj.mp single
  rw [tokens] at several
  cases further : (Scan.ofText (last + 1) rest).tokens with
  | nil => simp [further] at several
  | cons second others =>
    rw [further, List.map_cons] at leads
    obtain ⟨operator, shape⟩ := leads.exists_operator rfl
    -- The context gives origins to names only, so the token is an operator before that as well.
    have plain : second.lexeme = .operator operator := by
      obtain ⟨lexeme, _, _⟩ := second
      cases lexeme <;> first | exact shape | contradiction
    have head := Scan.head?_of_operator further plain
    rcases runsOf_cases rest with ⟨blank, _⟩ | ⟨run, behind, unread, long, _, _, runs⟩
    · rw [blank] at head
      contradiction
    · rw [unread, List.head?_append_of_ne_nil _ long] at head
      rw [runs, List.map_cons]
      refine ⟨operator, _, _, rfl, by rwa [String.toList_ofList], fun other => ?_⟩
      have expression := context.isExpression_of_leads accepted leads same fun assigns =>
        other (Lexeme.operator.inj (shape.symm.trans assigns))
      exact ⟨expression,
        context.contains_of_leads parsed expression leads same verb.builtInConstant?_name⟩

/-- Of the accepted lines of several tokens, those that clash are taken for commands, and no others.
They are expressions, so a definition always goes to the calculator. -/
theorem recognized_iff_clashes {line : String} {tree : Expr}
    (parsed : context.parse line = .ok tree) (several : 2 ≤ (context.scan line).tokens.length) :
    ((Invocation.ofLine? line).isSome = true ↔ context.Clashes line) ∧
      (context.Clashes line → IsExpression tree) := by
  refine ⟨⟨fun recognized => ?_, ?_⟩, ?_⟩
  · unfold Invocation.ofLine? at recognized
    split at recognized
    · contradiction
    · next first arguments split =>
      split at recognized
      · contradiction
      · next continues =>
        rw [Option.isSome_map] at recognized
        obtain ⟨verb, known⟩ := Option.isSome_iff_exists.mp recognized
        obtain rfl := Verb.eq_name_of_ofName? known
        obtain ⟨operator, second, others, rfl, head, rest⟩ :=
          context.exists_operator_of_words parsed several split
        have other : operator ≠ .assign := by
          rintro rfl
          exact continues (Invocation.continuesInput_assign head)
        exact ⟨verb, operator, second, others, split, head, other, (rest other).2⟩
  · rintro ⟨verb, operator, second, others, split, head, other, _⟩
    have continues := Invocation.continuesInput_eq_false head other
    simp [Invocation.ofLine?, split, continues, verb.ofName?_name]
  · rintro ⟨verb, operator, second, others, split, head, other, _⟩
    obtain ⟨found, _, _, same, alsoHead, rest⟩ :=
      context.exists_operator_of_words parsed several split
    obtain ⟨rfl, _⟩ := List.cons.inj same
    have symbols := Option.some.inj (head.symm.trans alsoHead)
    have operators := congrArg Operator.ofChar? symbols
    rw [Operator.ofChar?_symbol, Operator.ofChar?_symbol] at operators
    exact (rest (Option.some.inj operators ▸ other)).1

/-- The context of a session in which a constant has the name of a command. -/
def infoContext : Context := (Session.visit {} [(.closed, "info = 3")]).context

/-- There an expression is taken for the command, because it clashes. -/
theorem recognized_infoContext : ∃ tree, infoContext.parse "info + 1" = .ok tree ∧
    2 ≤ (infoContext.scan "info + 1").tokens.length ∧ infoContext.Clashes "info + 1" ∧
    (Invocation.ofLine? "info + 1").isSome = true ∧ IsExpression tree := by
  have several : 2 ≤ (infoContext.scan "info + 1").tokens.length := by decide +kernel
  have recognized : (Invocation.ofLine? "info + 1").isSome = true := by decide +kernel
  obtain ⟨tree, parsed⟩ : ∃ tree, infoContext.parse "info + 1" = .ok tree :=
    exists_eq_ok_of_isOk (by decide +kernel)
  obtain ⟨iff, expression⟩ := infoContext.recognized_iff_clashes parsed several
  have clashes := iff.mp recognized
  exact ⟨tree, parsed, several, clashes, recognized, expression clashes⟩

/-- Not every accepted line of several tokens goes to the calculator: behind `info = 3` the
expression `info + 1` is refused as a command with two arguments. -/
theorem not_every_line_is_calculated :
    (Invocation.ofLine? "info + 1").map Invocation.command =
        some (.error (.argumentCount .info 2)) ∧
      ¬ ∀ settings inputs line tree,
        (Session.visit settings inputs).context.parse line = .ok tree →
          2 ≤ ((Session.visit settings inputs).context.scan line).tokens.length →
            Invocation.ofLine? line = none := by
  refine ⟨by decide +kernel, fun all => ?_⟩
  have several : 2 ≤ (infoContext.scan "info + 1").tokens.length := by decide +kernel
  have recognized : Invocation.ofLine? "info + 1" ≠ none := by decide +kernel
  obtain ⟨tree, parsed⟩ : ∃ tree, infoContext.parse "info + 1" = .ok tree :=
    exists_eq_ok_of_isOk (by decide +kernel)
  exact recognized (all _ _ _ tree parsed several)

end Context

end Reckoner
