import Mathlib.Data.Set.Subsingleton
import Reckoner.Proofs.Accepting
import Reckoner.Proofs.Checking
import Reckoner.Proofs.Encoding
/-!
# The tree of a line is that of its derivation

Whatever tokens have been taken up, the trees that the frames hold are those of derivations.
Together with the reading of every derivation this shows that a line has a tree exactly if its
tokens are derived from an assignment. The derivation is the only one, and the tree is its phrase
without the parentheses.
-/

namespace Reckoner

/-- What is derived from an operand is derived from what it is an operand of. -/
theorem Derives.raise {category higher : Nonterminal} {tokens : List Token} {phrases : List Phrase}
    (derives : Derives category tokens phrases) (le : higher.rank ≤ category.rank) :
    Derives higher tokens phrases := by
  by_cases same : higher.rank = category.rank
  · rwa [Nonterminal.rank_injective same]
  · have below : higher ≠ .element := by
      rintro rfl
      cases category <;> simp [Nonterminal.rank] at le same
    have next := Nonterminal.rank_operand below
    exact .only below (derives.raise (by omega))
termination_by category.rank - higher.rank

/-- The frames have taken up the tokens, and the trees in them are those of derivations. -/
inductive Waits : List Frame → List Token → Prop
  /-- Nothing has been taken up. -/
  | line : Waits [] []
  /-- A parenthesis has been opened. -/
  | group {stack : List Frame} {tokens : List Token} {opening : Token}
    (before : Waits stack tokens) (opened : opening.lexeme = .mark .opening) :
    Waits (.group :: stack) (tokens ++ [opening])
  /-- An argument list has been opened. -/
  | callOpened {stack : List Frame} {tokens : List Token} {token opening : Token} {origin : Origin}
    {name : String} (before : Waits stack tokens) (shape : token.lexeme = .function origin name)
    (opened : opening.lexeme = .mark .opening) :
    Waits (.call origin name token.stop [] :: stack) (tokens ++ [token, opening])
  /-- Arguments have been taken up, and a comma behind them. -/
  | callContinued {stack : List Frame} {tokens inside : List Token} {token opening comma : Token}
    {origin : Origin} {name : String} {arguments : List Phrase}
    (before : Waits stack tokens) (shape : token.lexeme = .function origin name)
    (opened : opening.lexeme = .mark .opening) (part : Derives .arguments inside arguments)
    (separated : comma.lexeme = .mark .comma) :
    Waits (.call origin name token.stop (arguments.map Phrase.expr) :: stack)
      (tokens ++ token :: opening :: inside ++ [comma])
  /-- A sign has been taken up. -/
  | sign {stack : List Frame} {tokens : List Token} {token : Token} {sign : Sign}
    (before : Waits stack tokens) (shape : token.lexeme = .operator sign.operator) :
    Waits (.sign sign token.stop :: stack) (tokens ++ [token])
  /-- An operator has been taken up behind its left operand, which the frames below admit. -/
  | operator {category : Nonterminal} {stack : List Frame} {tokens front : List Token}
    {token : Token} {operator : Operator} {left : Phrase} (before : Waits stack tokens)
    (admits : Admits category.rank stack) (first : Derives category front [left])
    (shape : token.lexeme = .operator operator) (among : operator ∈ category.operators) :
    Waits (.operator operator token.stop left.expr :: stack) (tokens ++ front ++ [token])

/-- No sign is on top of the frames. -/
def Unsigned (stack : List Frame) : Prop :=
  ∀ sign position below, stack ≠ .sign sign position :: below

/-- Frames that admit an operator have no sign on top. -/
theorem Admits.unsigned {rank : Nat} {stack : List Frame} (admits : Admits rank stack)
    (low : rank ≤ 4) : Unsigned stack := by
  rintro sign position below rfl
  exact absurd low (Nat.not_le_of_lt admits)

/-- The state of the reading after the tokens. -/
inductive Build.Reads : Build → List Token → Prop
  /-- An operand has to follow. -/
  | operand {stack : List Frame} {tokens : List Token} (waits : Waits stack tokens) :
    Reads (.operand stack) tokens
  /-- An argument list has to follow. -/
  | callee {stack : List Frame} {tokens : List Token} {token : Token} {origin : Origin}
    {name : String} (waits : Waits stack tokens) (shape : token.lexeme = .function origin name) :
    Reads (.callee origin name token.stop stack) (tokens ++ [token])
  /-- An operand has been read with all its signs. -/
  | complete {stack : List Frame} {front behind : List Token} {phrase : Phrase}
    (waits : Waits stack front) (derives : Derives .unary behind [phrase])
    (unsigned : Unsigned stack) : Reads (.complete phrase.expr stack) (front ++ behind)

namespace Build

/-- An operand with the signs in front of it has been read. -/
theorem reads_settle {stack : List Frame} {front behind : List Token} {phrase : Phrase}
    (waits : Waits stack front) (derives : Derives .unary behind [phrase]) :
    Reads (settle phrase.expr stack) (front ++ behind) := by
  induction stack generalizing front behind phrase with
  | nil => exact .complete waits derives nofun
  | cons frame stack ih =>
    cases frame with
    | sign sign position =>
      cases waits with
      | sign before shape =>
        rw [List.append_assoc]
        exact ih before (.signed shape derives)
    | operator | group | call => exact .complete waits derives nofun

/-- The tree on top of the frames is that of a derivation of the place `rank` or a later one, and
the frames admit this place. -/
def Tops (rank : Nat) (reduced : Expr × List Frame) (tokens : List Token) : Prop :=
  ∃ category front behind phrase, rank ≤ category.rank ∧ 1 ≤ category.rank ∧
    tokens = front ++ behind ∧ Waits reduced.2 front ∧ Derives category behind [phrase] ∧
    reduced.1 = phrase.expr ∧ Admits rank reduced.2

/-- Completing operators joins derivations. -/
theorem tops_reduce {rank : Nat} {category : Nonterminal} {stack : List Frame}
    {front behind : List Token} {phrase : Phrase} (waits : Waits stack front)
    (derives : Derives category behind [phrase]) (later : rank ≤ category.rank)
    (positive : 1 ≤ category.rank) (admits : Admits category.rank stack)
    (unsigned : Unsigned stack) : Tops rank (reduce rank phrase.expr stack) (front ++ behind) := by
  induction stack generalizing category front behind phrase with
  | nil =>
    exact ⟨category, front, behind, phrase, later, positive, rfl, waits, derives, rfl, trivial⟩
  | cons frame stack ih =>
    cases frame with
    | operator operator position left =>
      rw [reduce]
      split
      · next completed =>
        cases waits with
        | @operator outer _ tokens inner token _ first before outerAdmits second shape among =>
          have place := (outer.mem_operators_iff operator).mp among
          have low : outer.rank ≤ 4 := place ▸ operator.precedence_le
          have next : outer.operand.rank = outer.rank + 1 := by
            apply Nonterminal.rank_operand
            rintro rfl
            exact absurd low (by decide)
          have right : Derives outer.operand behind [phrase] := by
            apply derives.raise
            have tighter : operator.precedence < category.rank := admits
            omega
          have joined := Derives.joined second (.operator shape among first phrase) right
          have positive := operator.precedence_pos
          have top := ih before joined (by omega) (by omega) outerAdmits (outerAdmits.unsigned low)
          rw [Phrase.expr] at top
          simpa using top
      · next stopped =>
        exact ⟨category, front, behind, phrase, later, positive, rfl, waits, derives, rfl,
          Nat.lt_of_not_le stopped⟩
    | sign sign position => exact absurd rfl (unsigned sign position stack)
    | group | call =>
      exact ⟨category, front, behind, phrase, later, positive, rfl, waits, derives, rfl, trivial⟩

/-- An expression behind the arguments read so far is a further argument. -/
theorem exists_arguments {origin : Origin} {name : String} {start : Nat} {earlier : List Expr}
    {stack : List Frame} {front behind : List Token} {category : Nonterminal} {phrase : Phrase}
    (waits : Waits (.call origin name start earlier :: stack) front)
    (derives : Derives category behind [phrase]) (positive : 1 ≤ category.rank) :
    ∃ tokens token opening inside arguments,
      front ++ behind = tokens ++ token :: opening :: inside ∧
      Waits stack tokens ∧ token.lexeme = .function origin name ∧ token.stop = start ∧
      opening.lexeme = .mark .opening ∧ Derives .arguments inside arguments ∧
      earlier ++ [phrase.expr] = arguments.map Phrase.expr := by
  have argument : Derives .assignment behind [phrase] := derives.raise positive
  cases waits with
  | @callOpened _ tokens token opening _ _ before shape opened =>
    refine ⟨tokens, token, opening, behind, [phrase], ?_, before, shape, rfl, opened, ?_, rfl⟩
    · rw [List.append_assoc, List.cons_append, List.cons_append, List.nil_append]
    · exact .only (by decide) argument
  | @callContinued _ tokens inside token opening comma _ _ arguments before shape opened part
      separated =>
    refine ⟨tokens, token, opening, inside ++ comma :: behind, arguments ++ [phrase], ?_, before,
      shape, rfl, opened, .joined part (.comma separated arguments phrase) argument, ?_⟩
    · simp
    · rw [List.map_append]
      rfl

/-- Every derivation has phrases. -/
theorem phrases_ne_nil {category : Nonterminal} {tokens : List Token} {phrases : List Phrase}
    (derives : Derives category tokens phrases) : phrases ≠ [] := by
  induction derives with
  | joined _ joins => cases joins <;> simp
  | only _ _ ih => exact ih
  | signed | number | constant | emptyCall | call | group => simp

/-- A call without arguments so far has just been opened. -/
theorem exists_opened {origin : Origin} {name : String} {start : Nat} {earlier : List Expr}
    {stack : List Frame} {front : List Token} (empty : earlier = [])
    (waits : Waits (.call origin name start earlier :: stack) front) :
    ∃ tokens token opening, front = tokens ++ [token, opening] ∧ Waits stack tokens ∧
      token.lexeme = .function origin name ∧ token.stop = start ∧
      opening.lexeme = .mark .opening := by
  cases waits with
  | callOpened before shape opened => exact ⟨_, _, _, rfl, before, shape, rfl, opened⟩
  | callContinued before shape opened part =>
    exact absurd (List.map_eq_nil_iff.mp empty) (phrases_ne_nil part)

/-- A closing mark where an operand has to stand closes a call that has just been opened. -/
theorem exists_of_closeEmpty {position : Nat} {stack : List Frame} {next : Build}
    (closed : closeEmpty position stack = .ok next) :
    ∃ origin name start below, stack = .call origin name start [] :: below ∧
      next = settle (.call origin name start []) below := by
  unfold closeEmpty at closed
  split at closed
  · next origin name start below =>
    exact ⟨origin, name, start, below, rfl, (Except.ok.inj closed).symm⟩
  · contradiction
  · contradiction

/-- A token where an operand has to stand is the next one of a derivation. -/
theorem reads_stepOperand {stack : List Frame} {tokens : List Token} {token : Token} {next : Build}
    (waits : Waits stack tokens) (taken : stepOperand stack token = .ok next) :
    Reads next (tokens ++ [token]) := by
  cases shape : token.lexeme with
  | number spelling imaginary =>
    simp only [stepOperand, shape] at taken
    obtain rfl := Except.ok.inj taken
    exact reads_settle waits (.only (by decide) (.number shape))
  | constant origin name =>
    simp only [stepOperand, shape] at taken
    obtain rfl := Except.ok.inj taken
    exact reads_settle waits (.only (by decide) (.constant shape))
  | function origin name =>
    simp only [stepOperand, shape] at taken
    obtain rfl := Except.ok.inj taken
    exact .callee waits shape
  | operator operator =>
    simp only [stepOperand, shape] at taken
    cases found : operator.sign? with
    | none =>
      rw [found] at taken
      contradiction
    | some sign =>
      rw [found] at taken
      obtain rfl := Except.ok.inj taken
      obtain rfl : operator = sign.operator := by
        revert found
        cases operator <;> cases sign <;> simp [Operator.sign?, Sign.operator]
      exact .operand (.sign waits shape)
  | mark mark =>
    cases mark with
    | opening =>
      simp only [stepOperand, shape] at taken
      obtain rfl := Except.ok.inj taken
      exact .operand (.group waits shape)
    | comma =>
      simp only [stepOperand, shape] at taken
      contradiction
    | closing =>
      simp only [stepOperand, shape] at taken
      obtain ⟨origin, name, start, below, rfl, rfl⟩ := exists_of_closeEmpty taken
      obtain ⟨front, called, opening, rfl, before, named, rfl, opened⟩ := exists_opened rfl waits
      have read := reads_settle before (.only (by decide) (.emptyCall named opened shape))
      rw [List.append_assoc]
      exact read

/-- An operator takes the tree on top as its left operand. -/
theorem reads_operator {operator : Operator} {reduced : Expr × List Frame} {tokens : List Token}
    {token : Token} (tops : Tops operator.precedence reduced tokens)
    (shape : token.lexeme = .operator operator) :
    Reads (.operand (.operator operator token.stop reduced.1 :: reduced.2))
      (tokens ++ [token]) := by
  obtain ⟨inner, front, behind, left, later, _, same, before, part, tree, below⟩ := tops
  rw [← operator.rank_nonterminal] at later below
  rw [same, tree]
  exact .operand (.operator before below (part.raise later) shape operator.mem_operators)

/-- A closing parenthesis ends a phrase in parentheses. -/
theorem reads_closeGroup {expr : Expr} {rest : List Frame} {tokens : List Token} {token : Token}
    (tops : Tops 0 (expr, .group :: rest) tokens) (shape : token.lexeme = .mark .closing) :
    Reads (settle expr rest) (tokens ++ [token]) := by
  obtain ⟨inner, front, behind, phrase, _, positive, rfl, waits, part, rfl, _⟩ := tops
  cases waits with
  | group before opened =>
    have grouped := Derives.group opened (part.raise positive) shape
    have read := reads_settle before (.only (by decide) grouped)
    rw [Phrase.expr] at read
    simpa using read

/-- A closing parenthesis ends a call behind its last argument. -/
theorem reads_closeCall {origin : Origin} {name : String} {start : Nat} {earlier : List Expr}
    {expr : Expr} {rest : List Frame} {tokens : List Token} {token : Token}
    (tops : Tops 0 (expr, .call origin name start earlier :: rest) tokens)
    (shape : token.lexeme = .mark .closing) :
    Reads (settle (.call origin name start (earlier ++ [expr])) rest) (tokens ++ [token]) := by
  obtain ⟨inner, front, behind, phrase, _, positive, rfl, waits, part, rfl, _⟩ := tops
  obtain ⟨outside, called, opening, inside, arguments, tokens_eq, outer, named, rfl, opened, listed,
    earlier_eq⟩ := exists_arguments waits part positive
  have read := reads_settle outer (.only (by decide) (.call named opened listed shape))
  rw [Phrase.expr, Phrase.exprs_eq_map, ← earlier_eq] at read
  rw [tokens_eq]
  simpa using read

/-- A comma adds an argument to a call. -/
theorem reads_comma {origin : Origin} {name : String} {start : Nat} {earlier : List Expr}
    {expr : Expr} {rest : List Frame} {tokens : List Token} {token : Token}
    (tops : Tops 0 (expr, .call origin name start earlier :: rest) tokens)
    (shape : token.lexeme = .mark .comma) :
    Reads (.operand (.call origin name start (earlier ++ [expr]) :: rest)) (tokens ++ [token]) := by
  obtain ⟨inner, front, behind, phrase, _, positive, rfl, waits, part, rfl, _⟩ := tops
  obtain ⟨outside, called, opening, inside, arguments, tokens_eq, outer, named, rfl, opened, listed,
    earlier_eq⟩ := exists_arguments waits part positive
  rw [tokens_eq, earlier_eq]
  exact .operand (.callContinued outer named opened listed shape)

/-- A token behind an operand is the next one of a derivation. -/
theorem reads_stepComplete {stack : List Frame} {front behind : List Token} {phrase : Phrase}
    {token : Token} {next : Build} (waits : Waits stack front)
    (derives : Derives .unary behind [phrase]) (unsigned : Unsigned stack)
    (taken : stepComplete phrase.expr stack token = .ok next) :
    Reads next (front ++ behind ++ [token]) := by
  have admits : Admits Nonterminal.unary.rank stack := admits_of_lt (by decide) stack
  have tops {rank : Nat} (low : rank ≤ 4) : Tops rank (reduce rank phrase.expr stack)
      (front ++ behind) :=
    tops_reduce waits derives (Nat.le_succ_of_le low) (by decide) admits unsigned
  have outermost := tops (Nat.zero_le 4)
  cases shape : token.lexeme with
  | number | constant | function =>
    simp only [stepComplete, shape] at taken
    contradiction
  | operator operator =>
    simp only [stepComplete, shape] at taken
    obtain rfl := Except.ok.inj taken
    exact reads_operator (tops (by cases operator <;> decide)) shape
  | mark mark =>
    simp only [stepComplete, shape] at taken
    generalize reduce 0 phrase.expr stack = reduced at taken outermost
    obtain ⟨expr, rest⟩ := reduced
    cases mark with
    | opening => contradiction
    | closing =>
      cases rest with
      | nil => contradiction
      | cons frame rest =>
        cases frame with
        | operator | sign => contradiction
        | group =>
          obtain rfl := Except.ok.inj taken
          exact reads_closeGroup outermost shape
        | call origin name start earlier =>
          obtain rfl := Except.ok.inj taken
          exact reads_closeCall outermost shape
    | comma =>
      cases rest with
      | nil => contradiction
      | cons frame rest =>
        cases frame with
        | operator | sign | group => contradiction
        | call origin name start earlier =>
          obtain rfl := Except.ok.inj taken
          exact reads_comma outermost shape

/-- Every token is the next one of a derivation. -/
theorem reads_step {build next : Build} {tokens : List Token} {token : Token}
    (reads : Reads build tokens) (taken : build.step token = .ok next) :
    Reads next (tokens ++ [token]) := by
  cases reads with
  | operand waits => exact reads_stepOperand waits taken
  | complete waits derives unsigned => exact reads_stepComplete waits derives unsigned taken
  | @callee stack tokens called origin name waits named =>
    rw [step] at taken
    split at taken
    · next opened =>
      obtain rfl := Except.ok.inj taken
      rw [List.append_assoc]
      exact .operand (.callOpened waits named opened)
    · contradiction

/-- All tokens that are taken up belong to derivations. -/
theorem reads_foldlM {build last : Build} {front tokens : List Token} (reads : Reads build front)
    (run : tokens.foldlM step build = .ok last) : Reads last (front ++ tokens) := by
  induction tokens generalizing build front with
  | nil =>
    obtain rfl := Except.ok.inj run
    rwa [List.append_nil]
  | cons token tokens ih =>
    cases taken : build.step token with
    | error diagnosis =>
      rw [List.foldlM_cons, taken] at run
      contradiction
    | ok next =>
      rw [foldlM_cons_ok taken] at run
      have read := ih (reads_step reads taken) run
      rwa [List.append_assoc] at read

/-- A tree at the end of the line is that of a derivation of all its tokens. -/
theorem exists_derives {build : Build} {tokens : List Token} {length : Nat} {expr : Expr}
    (reads : Reads build tokens) (finished : build.finish length = .ok expr) :
    ∃ phrase, Derives .assignment tokens [phrase] ∧ phrase.expr = expr := by
  cases reads with
  | operand | callee =>
    unfold finish at finished
    split at finished <;> contradiction
  | complete waits derives unsigned =>
    obtain ⟨category, front, behind, final, _, positive, same, before, part, tree, _⟩ :=
      tops_reduce waits derives (Nat.zero_le _) (by decide) (admits_of_lt (by decide) _) unsigned
    rw [finish] at finished
    split at finished
    · next last reduced =>
      rw [reduced] at before tree
      obtain rfl := Except.ok.inj finished
      cases before
      exact ⟨final, same ▸ part.raise positive, tree.symm⟩
    · contradiction

/-- The tokens of a derivation lead to a state that ends with its tree. -/
theorem finish_of_derives {tokens : List Token} {phrase : Phrase}
    (derives : Derives .assignment tokens [phrase]) (length : Nat) :
    ∃ last, tokens.foldlM step (.operand []) = .ok last ∧
      last.finish length = .ok phrase.expr := by
  obtain ⟨_, same, takes⟩ := taken_of_derives derives
  obtain rfl := List.singleton_inj.mp same
  obtain ⟨last, above, whole, below, run, settled, reduced⟩ := takes [] trivial
  obtain ⟨rfl, rfl⟩ := Build.complete.inj settled
  refine ⟨.complete last above, run, ?_⟩
  rw [finish, reduced 0 (Nat.zero_le _)]
  rfl

end Build

/-- Tokens in front of no fault have a tree exactly if they are derived from an assignment, and then
the tree is that of the derivation. -/
theorem Scan.tree_eq_ok_iff (scan : Scan) (length : Nat) (expr : Expr) :
    scan.tree length = .ok expr ↔ scan.stop = none ∧
      ∃ phrase, Derives .assignment scan.tokens [phrase] ∧ phrase.expr = expr := by
  unfold Scan.tree
  constructor
  · intro found
    obtain ⟨last, run, rest⟩ := (bind_eq_ok_iff ..).mp found
    cases stopped : scan.stop with
    | some diagnosis =>
      rw [stopped] at rest
      contradiction
    | none =>
      rw [stopped] at rest
      exact ⟨rfl, Build.exists_derives (Build.reads_foldlM (.operand .line) run) rest⟩
  · rintro ⟨stopped, phrase, derives, rfl⟩
    obtain ⟨last, run, finished⟩ := Build.finish_of_derives derives length
    refine (bind_eq_ok_iff ..).mpr ⟨last, run, ?_⟩
    rw [stopped]
    exact finished

/-- A line has a tree exactly if it is read to its end and its tokens are derived from an
assignment. The derivation is the only one, and the tree is its phrase without parentheses. -/
theorem Context.tree_eq_ok_iff_derives (context : Context) (line : String) :
    (∀ expr, context.tree line = .ok expr ↔ (context.scan line).stop = none ∧
        ∃ phrase, Derives .assignment (context.scan line).tokens [phrase] ∧ phrase.expr = expr) ∧
      {phrase | Derives .assignment (context.scan line).tokens [phrase]}.Subsingleton := by
  constructor
  · rw [tree_eq]
    exact Scan.tree_eq_ok_iff (context.scan line) line.utf8ByteSize
  · intro first firstDerives second secondDerives
    exact List.singleton_inj.mp (firstDerives.unique secondDerives)

end Reckoner
