import Reckoner.Proofs.Symbols
/-!
# Lines that do not interfere

A line refers to the symbols that it mentions and to those of the stored bodies that its calls lead
to. Where two contexts agree on these symbols, the line is refused with the same report, has the
same value, or defines the same. So a name that a line does not refer to may be defined, defined
anew or removed, and the line comes to the same.
-/

namespace Reckoner

/-- A line refers to the symbols that its tree mentions, and to those of the stored bodies of
functions that it refers to, whether or not they are defined. -/
inductive Context.Refers (context : Context) (line : String) : Symbol → Prop
  /-- The line mentions the symbol. -/
  | mentioned {tree : Expr} {symbol : Symbol} (read : lineTree line = .ok tree)
    (mention : symbol ∈ tree.mentions) : Refers context line symbol
  /-- The stored body of a function that the line refers to has the symbol. -/
  | through {name : String} {function : UserFunction} {symbol : Symbol}
    (called : Refers context line (.function name))
    (found : context.functions.find? name = some function)
    (mention : symbol ∈ function.body.symbols function.parameters) : Refers context line symbol

/-- What a line comes to in two contexts is the same: the same report, the same value, which is kept
in both, or the same definition. -/
inductive Context.SameEntry (first second : Context) :
    Except Rejection (Context × Outcome) → Except Rejection (Context × Outcome) → Prop
  /-- Both refuse the line with the same report. -/
  | refused (rejection : Rejection) : SameEntry first second (.error rejection) (.error rejection)
  /-- Both come to the same value. It is kept in both or in neither, if the name of the answer is a
  function in both or in neither. -/
  | answered (value : Number)
    (kept : first.functions.contains answerName = second.functions.contains answerName →
      first.keepAnswer value = first ∧ second.keepAnswer value = second ∨
        first.keepAnswer value = first.defineConstant answerName value ∧
          second.keepAnswer value = second.defineConstant answerName value) :
    SameEntry first second (.ok (first.keepAnswer value, .value value))
      (.ok (second.keepAnswer value, .value value))
  /-- The same constant gets the same value. -/
  | constant (name : String) (value : Number) :
    SameEntry first second (.ok (first.defineConstant name value, .defined))
      (.ok (second.defineConstant name value, .defined))
  /-- The same function is defined. The stored functions are equal if the parameters are constants
  of the user in both contexts or in neither. -/
  | function (name : String) {function other : UserFunction} (alike : function.Alike other)
    (same : (∀ parameter ∈ function.parameters,
      first.constantOrigin parameter = second.constantOrigin parameter) → function = other) :
    SameEntry first second (.ok (first.defineFunction name function, .defined))
      (.ok (second.defineFunction name other, .defined))

namespace Context

/-- A line that has no tree is refused alike in all contexts. -/
theorem enter_of_no_tree (context : Context) {line : String} {diagnosis : Diagnosis}
    (unread : lineTree line = .error diagnosis) :
    context.enter line = .error ⟨line, diagnosis⟩ := by
  apply enter_error
  rw [parse_eq, tree_eq_relabel, unread]
  rfl

/-- A tree that is not accepted is refused with its first offence. -/
theorem enter_of_offence (context : Context) {line : String} {plain : Expr} {diagnosis : Diagnosis}
    (read : lineTree line = .ok plain)
    (offence : context.check (plain.relabel (.resolve context)) = .error diagnosis) :
    context.enter line = .error ⟨line, diagnosis⟩ := by
  have found := (context.tree_eq_ok_iff line _).mpr ⟨plain, read, rfl⟩
  apply enter_error
  rw [parse_eq, found]
  show Except.mapError _ (context.check _ >>= fun _ => _) = _
  rw [offence]
  rfl

/-- A tree that is accepted is parsed. -/
theorem parse_of_check (context : Context) {line : String} {plain : Expr}
    (read : lineTree line = .ok plain)
    (accepted : context.check (plain.relabel (.resolve context)) = .ok ()) :
    context.parse line = .ok (plain.relabel (.resolve context)) :=
  (context.parse_eq_ok_iff ..).mpr ⟨(context.tree_eq_ok_iff ..).mpr ⟨plain, read, rfl⟩, accepted⟩

/-- The answer is kept in both of two contexts or in neither, if its name is a function in both or
in neither. -/
theorem keepAnswer_cases {first second : Context}
    (both : first.functions.contains answerName = second.functions.contains answerName)
    (value : Number) :
    first.keepAnswer value = first ∧ second.keepAnswer value = second ∨
      first.keepAnswer value = first.defineConstant answerName value ∧
        second.keepAnswer value = second.defineConstant answerName value := by
  unfold keepAnswer
  rw [← both]
  cases first.functions.contains answerName with
  | true => exact Or.inl ⟨rfl, rfl⟩
  | false => exact Or.inr ⟨rfl, rfl⟩

namespace AgreeOn

variable {first second : Context} {seen : Symbol → Prop} (agree : first.AgreeOn second seen)
  (acyclic : first.functions.Acyclic) (alsoAcyclic : second.functions.Acyclic) {line : String}

include agree acyclic alsoAcyclic

/-- An accepted expression has the same value. -/
theorem sameEntry_expression {plain : Expr} (expression : IsExpression plain)
    (within : plain.Within seen [])
    (parsed : first.parse line = .ok (plain.relabel (.resolve first)))
    (alsoParsed : second.parse line = .ok (plain.relabel (.resolve second))) :
    SameEntry first second (first.enter line) (second.enter line) := by
  have labelled (labels : Relabelling) := (isExpression_relabel_iff labels plain).mpr expression
  have tree := agree.relabel_resolve_eq within nofun
  have value := agree.evaluate_eq acyclic alsoAcyclic
    ((Expr.within_relabel_iff _ _ (.resolve first) plain).mpr within)
  rw [enter_expression _ parsed (labelled _), enter_expression _ alsoParsed (labelled _), ← tree,
    ← value]
  exact .answered _ fun both => keepAnswer_cases both _

/-- An accepted definition of a constant gives it the same value. -/
theorem sameEntry_constant {position place : Nat} {origin : Origin} {name : String} {right : Expr}
    (within : right.Within seen [])
    (parsed : first.parse line = .ok
      ((Expr.binary .assign position (.constant origin name place) right).relabel (.resolve first)))
    (alsoParsed : second.parse line = .ok
      ((Expr.binary .assign position (.constant origin name place) right).relabel
        (.resolve second))) :
    SameEntry first second (first.enter line) (second.enter line) := by
  have tree := agree.relabel_resolve_eq within nofun
  have value := agree.evaluate_eq acyclic alsoAcyclic
    ((Expr.within_relabel_iff _ _ (.resolve first) right).mpr within)
  rw [enter_definition _ parsed, enter_definition _ alsoParsed]
  simp only [Expr.relabel, applyDefinition]
  rw [← tree, ← value]
  exact .constant name _

omit acyclic alsoAcyclic in
/-- An accepted definition of a function stores the same function. -/
theorem sameEntry_function {position place : Nat} {origin : Origin} {name : String}
    {arguments : List Expr} {right : Expr}
    (within : right.Within seen (arguments.map Expr.rootText))
    (parsed : first.parse line = .ok
      ((Expr.binary .assign position (.call origin name place arguments) right).relabel
        (.resolve first)))
    (alsoParsed : second.parse line = .ok
      ((Expr.binary .assign position (.call origin name place arguments) right).relabel
        (.resolve second))) :
    SameEntry first second (first.enter line) (second.enter line) := by
  have resolved {context : Context} (parsed : context.parse line = .ok
      ((Expr.binary .assign position (.call origin name place arguments) right).relabel
        (.resolve context))) : context.Resolved (arguments.map Expr.rootText) right := by
    obtain ⟨_, accepted⟩ := (context.parse_eq_ok_iff ..).mp parsed
    rw [Expr.relabel, relabel_call, check_function_definition_iff] at accepted
    obtain ⟨_, names, named, _, checked, _⟩ := accepted
    have texts := names_of_parameters named
    rw [Expr.map_rootText_relabel] at texts
    rw [texts]
    exact (context.checkNames_eq_ok_iff ..).mp checked
  have body := ((resolved parsed).core_eq).trans (resolved alsoParsed).core_eq.symm
  have texts := Expr.map_rootText_relabel
  rw [enter_definition _ parsed, enter_definition _ alsoParsed]
  simp only [Expr.relabel, Expr.relabelAll_eq_map, applyDefinition, texts]
  refine .function name ⟨rfl, rfl, body⟩ fun bound => ?_
  rw [agree.relabel_resolve_eq within bound]

/-- A line comes to the same in two contexts that agree on the symbols it mentions. -/
theorem sameEntry
    (mentioned : ∀ tree, lineTree line = .ok tree → ∀ symbol ∈ tree.mentions, seen symbol) :
    SameEntry first second (first.enter line) (second.enter line) := by
  cases read : lineTree line with
  | error diagnosis =>
    rw [first.enter_of_no_tree read, second.enter_of_no_tree read]
    exact .refused _
  | ok plain =>
    have known := mentioned plain read
    have checked := agree.check_eq known
    cases verdict : first.check (plain.relabel (.resolve first)) with
    | error diagnosis =>
      rw [first.enter_of_offence read verdict, second.enter_of_offence read (checked ▸ verdict)]
      exact .refused _
    | ok =>
      have parsed := first.parse_of_check read verdict
      have alsoParsed := second.parse_of_check read (checked ▸ verdict)
      by_cases expression : IsExpression plain
      · rw [Expr.mentions_of_expression expression] at known
        exact agree.sameEntry_expression acyclic alsoAcyclic expression known parsed alsoParsed
      · obtain ⟨position, left, right, rfl⟩ : ∃ position left right,
            plain = .binary .assign position left right := by
          simpa [IsExpression] using expression
        cases left with
        | constant origin name place =>
          have within := ((Expr.within_binary_iff ..).mp known).2
          exact agree.sameEntry_constant acyclic alsoAcyclic within parsed alsoParsed
        | call origin name place arguments =>
          have within := (List.forall_mem_cons.mp known).2
          exact agree.sameEntry_function within parsed alsoParsed
        | number | signed | binary | value =>
          have target := first.check_definition_cases verdict
          simp [Expr.relabel] at target

end AgreeOn

/-- Two contexts differ in a name at most. -/
def SameBut (name : String) (first second : Context) : Prop :=
  ∀ other, other ≠ name →
    first.constants.find? other = second.constants.find? other ∧
      first.functions.find? other = second.functions.find? other

/-- Contexts that differ in a name agree on the symbols of all other names. -/
theorem SameBut.agrees {name : String} {first second : Context}
    (same : SameBut name first second) {symbol : Symbol} (different : symbol.name ≠ name) :
    symbol.Agrees first second := by
  obtain ⟨constants, functions⟩ := same symbol.name different
  cases symbol with
  | constant other =>
    show first.constant? other = second.constant? other
    have value : first.constants.find? other = second.constants.find? other := constants
    rw [constant?, constant?, value]
  | function other =>
    have value : first.functions.find? other = second.functions.find? other := functions
    show Option.Rel UserFunction.SameBody (first.functions.find? other) _
    rw [← value]
    cases first.functions.find? other with
    | none => exact .none
    | some function => exact .some ⟨rfl, rfl⟩

/-- The definition of a constant changes its name only. -/
theorem sameBut_defineConstant (context : Context) (name : String) (value : Number) :
    SameBut name context (context.defineConstant name value) := by
  intro other different
  simp [defineConstant, Table.find?_insert, Table.find?_erase, different]

/-- The definition of a function changes its name only. -/
theorem sameBut_defineFunction (context : Context) (name : String) (function : UserFunction) :
    SameBut name context (context.defineFunction name function) := by
  intro other different
  simp [defineFunction, Table.find?_insert, Table.find?_erase, different]

/-- Taking out a constant changes its name only. -/
theorem sameBut_removeConstant (context : Context) (name : String) :
    SameBut name context (context.removeConstant name) := by
  intro other different
  simp [removeConstant, Table.find?_erase, different]

/-- Taking out a function changes its name only. -/
theorem sameBut_removeFunction (context : Context) (name : String) :
    SameBut name context (context.removeFunction name) := by
  intro other different
  simp [removeFunction, Table.find?_erase, different]

/-- The change defines a name, defines it anew, or takes it out. -/
inductive Redefines (context : Context) : Change → String → Prop
  /-- The line defines a constant. -/
  | constant {line name : String} {position place : Nat} {origin : Origin} {right : Expr}
    (parsed : context.parse line =
      .ok (.binary .assign position (.constant origin name place) right)) :
    Redefines context (.enter line) name
  /-- The line defines a function. -/
  | function {line name : String} {position place : Nat} {origin : Origin}
    {parameters : List Expr} {right : Expr}
    (parsed : context.parse line =
      .ok (.binary .assign position (.call origin name place parameters) right)) :
    Redefines context (.enter line) name
  /-- The line is an expression, whose value becomes the answer. -/
  | answer {line : String} {expr : Expr} (parsed : context.parse line = .ok expr)
    (expression : IsExpression expr) : Redefines context (.enter line) answerName
  /-- The command removes the name. -/
  | remove (name : String) : Redefines context (.remove name) name
  /-- A constant is given a value directly. -/
  | define (name : String) (value : Number) : Redefines context (.define name value) name
  /-- A constant is taken out directly. -/
  | removeConstant (name : String) : Redefines context (.removeConstant name) name
  /-- A function is taken out directly. -/
  | removeFunction (name : String) : Redefines context (.removeFunction name) name

/-- A change that concerns a name changes no other. -/
theorem Redefines.sameBut {context : Context} {change : Change} {name : String}
    (redefines : context.Redefines change name) : SameBut name context (context.after change) := by
  cases redefines with
  | constant parsed =>
    rw [after, enter_definition _ parsed]
    exact context.sameBut_defineConstant name _
  | function parsed =>
    rw [after, enter_definition _ parsed]
    exact context.sameBut_defineFunction name _
  | answer parsed expression =>
    rw [after, enter_expression _ parsed expression]
    show SameBut answerName context (context.keepAnswer _)
    unfold keepAnswer
    split
    · exact fun _ _ => ⟨rfl, rfl⟩
    · exact context.sameBut_defineConstant answerName _
  | remove =>
    rw [after, remove?]
    split
    · exact context.sameBut_removeConstant name
    · split
      · exact context.sameBut_removeFunction name
      · exact fun _ _ => ⟨rfl, rfl⟩
  | define _ value => exact context.sameBut_defineConstant name value
  | removeConstant => exact context.sameBut_removeConstant name
  | removeFunction => exact context.sameBut_removeFunction name

/-- A line comes to the same in two contexts that are reached, if they agree on every symbol that
the line refers to. In particular a name that it does not refer to may be defined, defined anew or
removed. -/
theorem sameEntry_of_agrees (earlier later : List Change) (line : String) :
    ((∀ symbol, (run earlier).Refers line symbol → symbol.Agrees (run earlier) (run later)) →
        SameEntry (run earlier) (run later) ((run earlier).enter line)
          ((run later).enter line)) ∧
      ∀ change name, (run earlier).Redefines change name →
        (∀ symbol, (run earlier).Refers line symbol → symbol.name ≠ name) →
        SameEntry (run earlier) (run (earlier ++ [change])) ((run earlier).enter line)
          ((run (earlier ++ [change])).enter line) := by
  have same (later : List Change)
      (agree : ∀ symbol, (run earlier).Refers line symbol →
        symbol.Agrees (run earlier) (run later)) :
      SameEntry (run earlier) (run later) ((run earlier).enter line)
        ((run later).enter line) := by
    have agreeOn : (run earlier).AgreeOn (run later) ((run earlier).Refers line) :=
      ⟨agree, fun _ _ called found _ mention => .through called found mention⟩
    exact agreeOn.sameEntry (kept_acyclic.run earlier) (kept_acyclic.run later)
      fun _ read _ mention => .mentioned read mention
  refine ⟨same later, fun change name redefines unrelated => same _ fun symbol refers => ?_⟩
  have step : run (earlier ++ [change]) = (run earlier).after change := by
    rw [run, List.foldl_append]
    rfl
  rw [step]
  exact redefines.sameBut.agrees (unrelated symbol refers)

/-- A run that leaves a function with a constant in its body, and a function apart from both. -/
def apartRun : List Change := [.enter "a = 2", .enter "g(x) = x + a", .enter "h(x) = x"]

/-- Another run that leaves the same constant and the same function, with other spaces and with a
constant that has the name of the parameter. -/
def otherRun : List Change := [.enter "h = 1", .enter "x = 7", .enter "a = 2", .enter " g(x)=x+a"]

/-- After the first run `g(3)` refers to `g` and to the constant in its body. -/
theorem apartRun_refers {symbol : Symbol} (refers : (run apartRun).Refers "g(3)" symbol) :
    symbol = .function "g" ∨ symbol = .constant "a" := by
  have tree : lineTree "g(3)" = .ok (.call .unknown "g" 0 [.number "3" false 2]) := by
    with_unfolding_all rfl
  have inside : ((run apartRun).functions.find? "g").map
      (fun function => function.body.symbols function.parameters) = some [.constant "a"] := by
    decide +kernel
  induction refers with
  | mentioned read mention =>
    obtain rfl := Except.ok.inj (tree.symm.trans read)
    exact Or.inl (List.mem_singleton.mp mention)
  | through _ found mention ih =>
    rcases ih with same | same
    · obtain rfl := Symbol.function.inj same
      rw [found, Option.map_some, Option.some.injEq] at inside
      rw [inside] at mention
      exact Or.inr (List.mem_singleton.mp mention)
    · contradiction

/-- The value of `g(3)` is the same after both runs, and removing `h` does not change it. -/
theorem apartRun_sameEntry :
    SameEntry (run apartRun) (run otherRun) ((run apartRun).enter "g(3)")
        ((run otherRun).enter "g(3)") ∧
      SameEntry (run apartRun) (run (apartRun ++ [.remove "h"])) ((run apartRun).enter "g(3)")
        ((run (apartRun ++ [.remove "h"])).enter "g(3)") := by
  obtain ⟨agreeing, unrelated⟩ := sameEntry_of_agrees apartRun otherRun "g(3)"
  constructor
  · apply agreeing
    intro symbol refers
    rcases apartRun_refers refers with rfl | rfl
    · have first : (run apartRun).functions.find? "g" = some ⟨["x"],
          .binary .add 9 (.constant .unknown "x" 7) (.constant .user "a" 11), "g(x) = x + a"⟩ := by
        with_unfolding_all rfl
      have second : (run otherRun).functions.find? "g" = some ⟨["x"],
          .binary .add 7 (.constant .user "x" 6) (.constant .user "a" 8), "g(x)=x+a"⟩ := by
        with_unfolding_all rfl
      show Option.Rel UserFunction.SameBody _ _
      rw [first, second]
      exact .some ⟨rfl, by with_unfolding_all rfl⟩
    · show (run apartRun).constant? "a" = (run otherRun).constant? "a"
      decide +kernel
  · apply unrelated (.remove "h") "h" (.remove "h")
    intro symbol refers
    rcases apartRun_refers refers with rfl | rfl <;> exact nofun

end Context

end Reckoner
