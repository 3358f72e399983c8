import Reckoner.Proofs.Contents
import Reckoner.Proofs.Scope
import Reckoner.Proofs.Sessions
import Reckoner.Proofs.TaggedValues
/-!
# Sessions with tagged values

Here a session is carried out with tagged values: a tree yields one, an answer and a constant are
kept as one, and the entry of a document is read as one. Each of these rules is on its own, so a
real value with an imaginary part could get into the constants, and from there into later results.
The numbers of the calculator go along with these rules from the empty context on: what is kept and
what a tree comes to are always the tagged values of the numbers.
-/

namespace Reckoner

/-- The tagged values that the constants of the user are kept with. -/
abbrev Tags := String → Option Tagged

/-- The parameters of a function with the tagged values of a call. -/
abbrev TaggedScope := List (String × Tagged)

/-- The tags with another one in the place of a name. -/
def Tags.update (tags : Tags) (name : String) (tag : Option Tagged) : Tags := fun other =>
  if other = name then tag else tags other

/-- The built-in constants as tagged values. -/
def builtInTags : List (String × Tagged) :=
  [("pi", .ofReal Binary64.pi), ("e", .ofReal Binary64.e), ("i", .ofComplex ⟨0, 1⟩)]

/-- The value describes a tagged value: an object has its type and its parts. Of a real one the
imaginary part is read, but it does not count. -/
def Json.DescribesTagged (value : Json) (tagged : Tagged) : Prop :=
  ∃ members re im, value = .object members ∧ members.lookup "re" = some (.number re) ∧
    members.lookup "im" = some (.number im) ∧
    (members.lookup "type" = some (.string "Real") ∧ tagged = .ofReal re ∨
      members.lookup "type" = some (.string "Complex") ∧ tagged = .ofComplex ⟨re, im⟩)

/-- An entry that describes a number describes its tagged value. -/
theorem Json.DescribesNumber.tagged {value : Json} {number : Number}
    (described : value.DescribesNumber number) : value.DescribesTagged number.tagged := by
  obtain ⟨members, re, im, object, reFound, imFound, ⟨kind, rfl⟩ | ⟨kind, rfl⟩⟩ := described
  · exact ⟨members, re, im, object, reFound, imFound, Or.inl ⟨kind, rfl⟩⟩
  · exact ⟨members, re, im, object, reFound, imFound, Or.inr ⟨kind, rfl⟩⟩

/-- A value describes one tagged value at most. -/
theorem Json.DescribesTagged.unique {value : Json} {first second : Tagged}
    (described : value.DescribesTagged first) (also : value.DescribesTagged second) :
    first = second := by
  obtain ⟨members, re, im, rfl, reFound, imFound, kinds⟩ := described
  obtain ⟨others, otherRe, otherIm, same, reAlso, imAlso, alsoKinds⟩ := also
  obtain rfl := Json.object.inj same
  obtain rfl := Json.number.inj (Option.some.inj (reFound.symm.trans reAlso))
  obtain rfl := Json.number.inj (Option.some.inj (imFound.symm.trans imAlso))
  rcases kinds with ⟨kind, rfl⟩ | ⟨kind, rfl⟩ <;>
    rcases alsoKinds with ⟨alsoKind, rfl⟩ | ⟨alsoKind, rfl⟩
  · rfl
  · simp [kind] at alsoKind
  · simp [kind] at alsoKind
  · rfl

/-- A built-in constant has the tagged value of its number. -/
theorem lookup_builtInTags (name : String) :
    builtInTags.lookup name = (builtInConstant? name).map Number.tagged := by
  simp only [builtInTags, builtInConstant?, builtInConstants, Table.lookup_cons_ite,
    List.lookup_nil]
  split
  · rfl
  · split
    · rfl
    · split <;> rfl

namespace Context

mutual

/-- The tagged value that a tree yields in a scope, where the constants of the user are kept with
`tags`. A parameter goes before a constant of its name, and the body of a function is read in the
scope of its parameters alone. -/
inductive Yields (context : Context) (tags : Tags) :
    TaggedScope → Expr → Tagged → Prop
  /-- A literal yields its value. -/
  | number (scope : TaggedScope) (spelling : String) (imaginary : Bool)
    (position : Nat) :
    Yields context tags scope (.number spelling imaginary position) (.ofLiteral spelling imaginary)
  /-- A parameter yields what it is bound to. -/
  | parameter {scope : TaggedScope} (origin : Origin) {name : String} (position : Nat)
    {tagged : Tagged} (bound : scope.lookup name = some tagged) :
    Yields context tags scope (.constant origin name position) tagged
  /-- A constant that was known yields what it is kept with. -/
  | constant {scope : TaggedScope} {origin : Origin} {name : String} (position : Nat)
    {tagged : Tagged} (free : scope.lookup name = none) (known : origin ≠ .unknown)
    (kept : (builtInTags.lookup name).or (tags name) = some tagged) :
    Yields context tags scope (.constant origin name position) tagged
  /-- A built-in function is applied to what the arguments yield. -/
  | builtIn {scope : TaggedScope} {name : String} (position : Nat)
    {arguments : List Expr} {function : BuiltIn} {inner : List Tagged} {tagged : Tagged}
    (known : BuiltIn.ofName? name = some function)
    (each : YieldsAll context tags scope arguments inner)
    (applied : function.applyTagged inner = some tagged) :
    Yields context tags scope (.call .builtIn name position arguments) tagged
  /-- The body of a user function is read with what the arguments yield. -/
  | user {scope : TaggedScope} {name : String} (position : Nat)
    {arguments : List Expr} {function : UserFunction} {inner : List Tagged} {tagged : Tagged}
    (found : context.functions.find? name = some function)
    (fits : function.parameters.length = inner.length)
    (each : YieldsAll context tags scope arguments inner)
    (inside : Yields context tags (function.parameters.zip inner) function.body tagged) :
    Yields context tags scope (.call .user name position arguments) tagged
  /-- A sign is applied to what the operand yields. -/
  | signed {scope : TaggedScope} (sign : Sign) (position : Nat) {operand : Expr}
    {tagged : Tagged} (part : Yields context tags scope operand tagged) :
    Yields context tags scope (.signed sign position operand) (sign.applyTagged tagged)
  /-- An operator is applied to what the operands yield. -/
  | binary {scope : TaggedScope} {operator : Operator} (position : Nat)
    {left right : Expr} {a b tagged : Tagged} (first : Yields context tags scope left a)
    (second : Yields context tags scope right b)
    (applied : operator.applyTagged a b = some tagged) :
    Yields context tags scope (.binary operator position left right) tagged
  /-- An evaluated argument yields its tagged value. -/
  | value (scope : TaggedScope) (known : Number) :
    Yields context tags scope (.value known) known.tagged

/-- The tagged values that several trees yield in a scope, one after the other. -/
inductive YieldsAll (context : Context) (tags : Tags) :
    TaggedScope → List Expr → List Tagged → Prop
  /-- No trees yield no values. -/
  | nil (scope : TaggedScope) : YieldsAll context tags scope [] []
  /-- The first tree yields the first value. -/
  | cons {scope : TaggedScope} {argument : Expr} {others : List Expr} {tagged : Tagged}
    {inner : List Tagged} (first : Yields context tags scope argument tagged)
    (further : YieldsAll context tags scope others inner) :
    YieldsAll context tags scope (argument :: others) (tagged :: inner)

end

/-- What the evaluation of a tree comes to: the tagged value that it yields, and the undefined one
where it yields none. -/
inductive ComesTo (context : Context) (tags : Tags) (expr : Expr) : Tagged → Prop
  /-- The tree yields a value. -/
  | yielded {tagged : Tagged} (yields : context.Yields tags [] expr tagged) :
    ComesTo context tags expr tagged
  /-- The tree yields no value. -/
  | undefined (nothing : ∀ tagged, ¬ context.Yields tags [] expr tagged) :
    ComesTo context tags expr .undefined

/-- The constants of a context that a session can lead to are kept with tagged values. -/
inductive Carries : Context → Tags → Prop
  /-- There are no constants in the beginning. -/
  | fresh : Carries {} fun _ => none
  /-- An answer is kept under its name, unless a function has the name. -/
  | answer {context : Context} {tags : Tags} {line : String} {expr : Expr} {tagged : Tagged}
    (before : Carries context tags) (parsed : context.parse line = .ok expr)
    (plain : IsExpression expr) (comes : context.ComesTo tags expr tagged) :
    Carries (context.keepAnswer (context.evaluate expr))
      (if context.functions.contains answerName then tags else tags.update answerName tagged)
  /-- A constant is kept with what its right side comes to. -/
  | constant {context : Context} {tags : Tags} {line name : String} {position place : Nat}
    {origin : Origin} {right : Expr} {tagged : Tagged} (before : Carries context tags)
    (parsed : context.parse line =
      .ok (.binary .assign position (.constant origin name place) right))
    (comes : context.ComesTo tags right tagged) :
    Carries (context.defineConstant name (context.evaluate right)) (tags.update name tagged)
  /-- A function takes the place of a constant of its name. -/
  | function {context : Context} {tags : Tags} {line name : String} {function : UserFunction}
    (before : Carries context tags) (defines : context.Defines line name function) :
    Carries (context.defineFunction name function) (tags.update name none)
  /-- A name is removed. -/
  | remove {context next : Context} {tags : Tags} {name : String}
    (before : Carries context tags) (removed : context.remove? name = some next) :
    Carries next (if context.constants.contains name then tags.update name none else tags)
  /-- A constant of a document is kept as its entry describes it. -/
  | entry {context : Context} {tags : Tags} {name : String} {entry : Json} {number : Number}
    {tagged : Tagged} (before : Carries context tags)
    (read : Document.toNumber name entry = .ok number) (described : entry.DescribesTagged tagged) :
    Carries (context.defineConstant name number) (tags.update name tagged)

section

variable {context : Context} {tags : Tags} {scope : TaggedScope}

/-- Trees yield values one after the other if each yields the one in its place. -/
theorem yieldsAll_iff (arguments : List Expr) (inner : List Tagged) :
    context.YieldsAll tags scope arguments inner ↔
      List.Forall₂ (context.Yields tags scope) arguments inner := by
  induction arguments generalizing inner with
  | nil =>
    rw [List.forall₂_nil_left_iff]
    constructor
    · intro all
      cases all
      rfl
    · rintro rfl
      exact .nil scope
  | cons argument others ih =>
    rw [List.forall₂_cons_left_iff]
    constructor
    · intro all
      cases all with
      | cons first further => exact ⟨_, _, first, (ih _).mp further, rfl⟩
    · rintro ⟨tagged, behind, first, further, rfl⟩
      exact .cons first ((ih behind).mpr further)

/-- A literal yields its value and nothing else. -/
theorem yields_number_iff (spelling : String) (imaginary : Bool) (position : Nat)
    (tagged : Tagged) :
    context.Yields tags scope (.number spelling imaginary position) tagged ↔
      Tagged.ofLiteral spelling imaginary = tagged := by
  constructor
  · intro yields
    cases yields
    rfl
  · rintro rfl
    exact .number scope spelling imaginary position

/-- An evaluated argument yields its tagged value and nothing else. -/
theorem yields_value_iff (known : Number) (tagged : Tagged) :
    context.Yields tags scope (.value known) tagged ↔ known.tagged = tagged := by
  constructor
  · intro yields
    cases yields
    rfl
  · rintro rfl
    exact .value scope known

/-- A bound name yields what it is bound to. -/
theorem yields_parameter_iff {name : String} {bound : Tagged}
    (found : scope.lookup name = some bound) (origin : Origin) (position : Nat)
    (tagged : Tagged) :
    context.Yields tags scope (.constant origin name position) tagged ↔ bound = tagged := by
  constructor
  · intro yields
    cases yields with
    | parameter _ _ alsoFound => exact Option.some.inj (found.symm.trans alsoFound)
    | constant _ free =>
      rw [found] at free
      contradiction
  · rintro rfl
    exact .parameter origin position found

/-- A name that is not bound yields the constant. -/
theorem yields_constant_iff {name : String} (free : scope.lookup name = none) (origin : Origin)
    (position : Nat) (tagged : Tagged) :
    context.Yields tags scope (.constant origin name position) tagged ↔
      origin ≠ .unknown ∧ (builtInTags.lookup name).or (tags name) = some tagged := by
  constructor
  · intro yields
    cases yields with
    | parameter _ _ bound =>
      rw [free] at bound
      contradiction
    | constant _ _ known kept => exact ⟨known, kept⟩
  · rintro ⟨known, kept⟩
    exact .constant position free known kept

/-- A call of a function that was not known yields nothing. -/
theorem not_yields_call_unknown (name : String) (position : Nat) (arguments : List Expr)
    (tagged : Tagged) :
    ¬ context.Yields tags scope (.call .unknown name position arguments) tagged := by
  intro yields
  cases yields

/-- A call of a built-in function yields what the function makes of the arguments. -/
theorem yields_builtIn_iff (name : String) (position : Nat) (arguments : List Expr)
    (tagged : Tagged) :
    context.Yields tags scope (.call .builtIn name position arguments) tagged ↔
      ∃ function inner, BuiltIn.ofName? name = some function ∧
        List.Forall₂ (context.Yields tags scope) arguments inner ∧
        function.applyTagged inner = some tagged := by
  simp only [← yieldsAll_iff]
  constructor
  · intro yields
    cases yields with
    | builtIn _ known each applied => exact ⟨_, _, known, each, applied⟩
  · rintro ⟨function, inner, known, each, applied⟩
    exact .builtIn position known each applied

/-- A call of a user function yields what its body yields in the scope of its parameters. -/
theorem yields_user_iff (name : String) (position : Nat) (arguments : List Expr)
    (tagged : Tagged) :
    context.Yields tags scope (.call .user name position arguments) tagged ↔
      ∃ function inner, context.functions.find? name = some function ∧
        function.parameters.length = inner.length ∧
        List.Forall₂ (context.Yields tags scope) arguments inner ∧
        context.Yields tags (function.parameters.zip inner) function.body tagged := by
  simp only [← yieldsAll_iff]
  constructor
  · intro yields
    cases yields with
    | user _ found fits each inside => exact ⟨_, _, found, fits, each, inside⟩
  · rintro ⟨function, inner, found, fits, each, inside⟩
    exact .user position found fits each inside

/-- An operand with a sign yields what the operand yields, with the sign. -/
theorem yields_signed_iff (sign : Sign) (position : Nat) (operand : Expr) (tagged : Tagged) :
    context.Yields tags scope (.signed sign position operand) tagged ↔
      ∃ a, context.Yields tags scope operand a ∧ sign.applyTagged a = tagged := by
  constructor
  · intro yields
    cases yields with
    | signed _ _ part => exact ⟨_, part, rfl⟩
  · rintro ⟨a, part, rfl⟩
    exact .signed sign position part

/-- Two operands yield what the operator makes of them. -/
theorem yields_binary_iff (operator : Operator) (position : Nat) (left right : Expr)
    (tagged : Tagged) :
    context.Yields tags scope (.binary operator position left right) tagged ↔
      ∃ a b, context.Yields tags scope left a ∧ context.Yields tags scope right b ∧
        operator.applyTagged a b = some tagged := by
  constructor
  · intro yields
    cases yields with
    | binary _ first second applied => exact ⟨_, _, first, second, applied⟩
  · rintro ⟨a, b, first, second, applied⟩
    exact .binary position first second applied

end

/-- A list goes with another one through images exactly if it goes with the images of a third. -/
theorem forall₂_exists_map_iff {α β γ : Type} (relation : α → β → Prop) (image : β → γ)
    (list : List α) (images : List γ) :
    List.Forall₂ (fun a c => ∃ b, relation a b ∧ image b = c) list images ↔
      ∃ others, List.Forall₂ relation list others ∧ others.map image = images := by
  induction list generalizing images with
  | nil => simp [eq_comm]
  | cons a list ih =>
    simp only [List.forall₂_cons_left_iff, ih]
    constructor
    · rintro ⟨_, _, ⟨b, related, rfl⟩, ⟨others, further, rfl⟩, rfl⟩
      exact ⟨b :: others, ⟨b, others, related, further, rfl⟩, rfl⟩
    · rintro ⟨_, ⟨b, others, related, further, rfl⟩, rfl⟩
      exact ⟨image b, others.map image, ⟨b, related, rfl⟩, ⟨others, further, rfl⟩, rfl⟩

/-- The constants of the user are kept with the tagged values of their numbers. -/
def KeepsTags (context : Context) (tags : Tags) : Prop :=
  ∀ name, tags name = (context.constants.find? name).map Number.tagged

section

variable {context : Context} {tags : Tags}

/-- A constant is kept with the tagged value of its number. -/
theorem KeepsTags.constant? (keeps : context.KeepsTags tags) (name : String) :
    (builtInTags.lookup name).or (tags name) = (context.constant? name).map Number.tagged := by
  rw [Context.constant?, lookup_builtInTags, keeps name]
  cases builtInConstant? name <;> rfl

/-- In every scope of numbers with their tagged values, the tree yields the tagged values of what it
comes to with the numbers in place of the parameters. -/
def Tracks (context : Context) (tags : Tags) (expr : Expr) : Prop :=
  ∀ (parameters : List String) (values : List Number) (tagged : Tagged),
    context.Yields tags (parameters.zip (values.map Number.tagged)) expr tagged ↔
      ∃ value, context.eval? (expr.substitute (parameters.zip (values.map .value))) =
        some value ∧ value.tagged = tagged

/-- Arguments that are tracked yield the tagged values of their values. -/
theorem forall₂_yields_iff {arguments : List Expr}
    (each : ∀ argument ∈ arguments, context.Tracks tags argument) (parameters : List String)
    (values : List Number) (inner : List Tagged) :
    List.Forall₂ (context.Yields tags (parameters.zip (values.map Number.tagged))) arguments inner ↔
      ∃ found, context.HaveValues
        (arguments.map (Expr.substitute (parameters.zip (values.map .value)))) found ∧
          found.map Number.tagged = inner := by
  rw [forall₂_congr_of_mem fun argument member => each argument member parameters values,
    forall₂_exists_map_iff]
  simp only [HaveValues, List.forall₂_map_left_iff]

/-- A constant is tracked. -/
theorem tracks_constant (keeps : context.KeepsTags tags) (origin : Origin) (name : String)
    (position : Nat) : context.Tracks tags (.constant origin name position) := by
  intro parameters values tagged
  have scope := lookup_zip_map Number.tagged parameters values name
  rw [Expr.substitute, lookup_zip_map]
  cases bound : (parameters.zip values).lookup name with
  | some value =>
    rw [bound] at scope
    simp only [yields_parameter_iff scope, Option.map_some, Option.getD_some,
      eval?_value_eq_some_iff, exists_eq_left']
  | none =>
    rw [bound] at scope
    simp only [yields_constant_iff scope, Option.map_none, Option.getD_none,
      eval?_constant_eq_some_iff, keeps.constant?, Option.map_eq_some_iff, and_assoc,
      exists_and_left]

/-- Two operands are tracked together. -/
theorem Tracks.binary {left right : Expr} (first : context.Tracks tags left)
    (second : context.Tracks tags right) (operator : Operator) (position : Nat) :
    context.Tracks tags (.binary operator position left right) := by
  intro parameters values tagged
  simp only [yields_binary_iff, Expr.substitute, eval?_binary_eq_some_iff,
    first parameters values, second parameters values]
  constructor
  · rintro ⟨_, _, ⟨a, before, rfl⟩, ⟨b, behind, rfl⟩, applied⟩
    obtain ⟨value, applied, same⟩ := (operator.applyTagged_eq_some_iff ..).mp applied
    exact ⟨value, ⟨a, b, before, behind, applied⟩, same⟩
  · rintro ⟨value, ⟨a, b, before, behind, applied⟩, same⟩
    exact ⟨_, _, ⟨a, before, rfl⟩, ⟨b, behind, rfl⟩,
      (operator.applyTagged_eq_some_iff ..).mpr ⟨value, applied, same⟩⟩

/-- A call of a built-in function is tracked if its arguments are. -/
theorem tracks_builtIn {arguments : List Expr}
    (each : ∀ argument ∈ arguments, context.Tracks tags argument) (name : String)
    (position : Nat) : context.Tracks tags (.call .builtIn name position arguments) := by
  intro parameters values tagged
  rw [Expr.substitute, Expr.substituteAll_eq_map]
  simp only [yields_builtIn_iff, eval?_call_builtIn_eq_some_iff, forall₂_yields_iff each]
  constructor
  · rintro ⟨function, _, known, ⟨found, given, rfl⟩, applied⟩
    obtain ⟨value, applied, same⟩ := (function.applyTagged_eq_some_iff ..).mp applied
    exact ⟨value, ⟨function, found, known, given, applied⟩, same⟩
  · rintro ⟨value, ⟨function, found, known, given, applied⟩, same⟩
    exact ⟨function, _, known, ⟨found, given, rfl⟩,
      (function.applyTagged_eq_some_iff ..).mpr ⟨value, applied, same⟩⟩

/-- A call of a user function is tracked if its arguments and the stored body are. -/
theorem tracks_user (acyclic : context.functions.Acyclic) {arguments : List Expr}
    (each : ∀ argument ∈ arguments, context.Tracks tags argument) (name : String)
    (body : ∀ function, context.functions.find? name = some function →
      context.Tracks tags function.body)
    (position : Nat) : context.Tracks tags (.call .user name position arguments) := by
  intro parameters values tagged
  rw [Expr.substitute, Expr.substituteAll_eq_map]
  simp only [yields_user_iff, eval?_call_user_eq_some_iff acyclic, forall₂_yields_iff each]
  constructor
  · rintro ⟨function, _, stored, fits, ⟨found, given, rfl⟩, inside⟩
    obtain ⟨value, inside, same⟩ := (body function stored _ _ _).mp inside
    rw [List.length_map] at fits
    exact ⟨value, ⟨function, found, stored, fits, given, inside⟩, same⟩
  · rintro ⟨value, ⟨function, found, stored, fits, given, inside⟩, same⟩
    rw [← List.length_map Number.tagged] at fits
    exact ⟨function, _, stored, fits, ⟨found, given, rfl⟩,
      (body function stored _ _ _).mpr ⟨value, inside, same⟩⟩

/-- Where the constants are kept with the tagged values of their numbers, every tree is tracked. -/
theorem tracks (acyclic : context.functions.Acyclic) (keeps : context.KeepsTags tags)
    (expr : Expr) : context.Tracks tags expr := by
  -- At a call of a user function the hypothesis for the body holds in the scope of its parameters.
  induction expr using evaluationInduction acyclic with
  | number spelling imaginary position =>
    intro parameters values tagged
    simp only [yields_number_iff, Expr.substitute, eval?_number_eq_some_iff, exists_eq_left',
      Number.tagged_literalValue]
  | value known =>
    intro parameters values tagged
    simp only [yields_value_iff, Expr.substitute, eval?_value_eq_some_iff, exists_eq_left']
  | constant origin name position => exact tracks_constant keeps origin name position
  | signed sign position operand ih =>
    intro parameters values tagged
    simp only [yields_signed_iff, Expr.substitute, eval?_signed_eq_some_iff,
      ih parameters values]
    constructor
    · rintro ⟨_, ⟨a, part, rfl⟩, rfl⟩
      exact ⟨_, ⟨a, part, rfl⟩, sign.tagged_apply a⟩
    · rintro ⟨_, ⟨a, part, rfl⟩, rfl⟩
      exact ⟨_, ⟨a, part, rfl⟩, (sign.tagged_apply a).symm⟩
  | binary operator position left right leftIh rightIh =>
    exact leftIh.binary rightIh operator position
  | call origin name position arguments ih bodyIh =>
    cases origin with
    | unknown =>
      intro parameters values tagged
      simp only [not_yields_call_unknown, Expr.substitute, eval?_call_unknown, reduceCtorEq,
        false_and, exists_false]
    | builtIn => exact tracks_builtIn ih name position
    | user =>
      exact tracks_user acyclic ih name (fun function found => bodyIh function rfl found) position

/-- A tree comes to the tagged value of its number, and to nothing else. -/
theorem comesTo_iff (acyclic : context.functions.Acyclic) (keeps : context.KeepsTags tags)
    (expr : Expr) (tagged : Tagged) :
    context.ComesTo tags expr tagged ↔ (context.evaluate expr).tagged = tagged := by
  have yields (tagged : Tagged) : context.Yields tags [] expr tagged ↔
      ∃ value, context.eval? expr = some value ∧ value.tagged = tagged := by
    have same := tracks acyclic keeps expr [] [] tagged
    rwa [List.map_nil, List.map_nil, List.zip_nil_left, List.zip_nil_left, Expr.substitute_nil]
      at same
  rw [evaluate]
  constructor
  · intro comes
    cases comes with
    | yielded found =>
      obtain ⟨value, evaluated, same⟩ := (yields tagged).mp found
      rw [evaluated, Option.getD_some, same]
    | undefined nothing =>
      have missing : context.eval? expr = none := by
        rw [Option.eq_none_iff_forall_ne_some]
        intro value evaluated
        exact nothing _ ((yields _).mpr ⟨value, evaluated, rfl⟩)
      rw [missing]
      rfl
  · rintro rfl
    cases evaluated : context.eval? expr with
    | some value => exact .yielded ((yields _).mpr ⟨value, evaluated, rfl⟩)
    | none =>
      refine .undefined fun tagged found => ?_
      obtain ⟨value, impossible, _⟩ := (yields tagged).mp found
      rw [evaluated] at impossible
      contradiction

/-- What every elementary change keeps, a context with tagged constants has. -/
theorem Carries.of_kept {property : Context → Prop} (kept : Kept property)
    (carries : context.Carries tags) : property context := by
  induction carries with
  | fresh => exact kept.fresh
  | @answer context _ _ _ _ _ parsed plain _ ih =>
    exact kept.enter ih (context.enter_expression parsed plain)
  | constant _ _ _ ih => exact kept.defineConstant _ _ _ ih
  | function _ defines ih => exact kept.defineFunction _ _ _ _ ih defines
  | @remove context _ _ name _ removed ih =>
    have after := kept.after ih (.remove name)
    rwa [Context.after, removed, Option.getD_some] at after
  | entry _ _ _ ih => exact kept.defineConstant _ _ _ ih

/-- A constant that gets a value is kept with its tagged value. -/
theorem KeepsTags.defineConstant (keeps : context.KeepsTags tags) (name : String)
    (value : Number) :
    (context.defineConstant name value).KeepsTags (tags.update name value.tagged) := by
  intro other
  rw [Context.defineConstant, Table.find?_insert, Tags.update, keeps other]
  split <;> rfl

/-- A constant that is taken out is not kept any more. -/
theorem KeepsTags.erase (keeps : context.KeepsTags tags) (name : String)
    (functions : Table UserFunction) :
    KeepsTags ⟨context.constants.erase name, functions⟩ (tags.update name none) := by
  intro other
  rw [Table.find?_erase, Tags.update, keeps other]
  split <;> rfl

/-- The tagged values that constants are carried with are those of their numbers. -/
theorem Carries.keepsTags (carries : context.Carries tags) : context.KeepsTags tags := by
  induction carries with
  | fresh =>
    intro name
    rfl
  | answer before _ _ comes ih =>
    rw [comesTo_iff (before.of_kept kept_acyclic) ih] at comes
    rw [keepAnswer, ← comes]
    split
    · exact ih
    · exact ih.defineConstant answerName _
  | constant before _ comes ih =>
    rw [comesTo_iff (before.of_kept kept_acyclic) ih] at comes
    rw [← comes]
    exact ih.defineConstant _ _
  | @function context tags _ name function before _ ih => exact ih.erase name _
  | @remove context next tags name before removed ih =>
    rw [remove?] at removed
    split at removed
    · next isConstant =>
      obtain rfl := Option.some.inj removed
      rw [if_pos isConstant]
      exact ih.erase name _
    · next noConstant =>
      split at removed
      · obtain rfl := Option.some.inj removed
        rw [if_neg noConstant]
        exact ih
      · contradiction
  | entry before read described ih =>
    rw [described.unique ((Document.toNumber_eq_ok_iff ..).mp read).tagged]
    exact ih.defineConstant _ _

/-- After an accepted line the constants are carried with tagged values again. -/
theorem Carries.exists_of_enter (carries : context.Carries tags) {next : Context} {line : String}
    {outcome : Outcome} (entered : context.enter line = .ok (next, outcome)) :
    ∃ after, next.Carries after := by
  have comes (expr : Expr) : context.ComesTo tags expr (context.evaluate expr).tagged :=
    (comesTo_iff (carries.of_kept kept_acyclic) carries.keepsTags expr _).mpr rfl
  cases context.entry_of_enter entered with
  | answer expr parsed plain => exact ⟨_, carries.answer parsed plain (comes expr)⟩
  | constant position origin name place right parsed =>
    exact ⟨_, carries.constant parsed (comes right)⟩
  | function name function defines => exact ⟨_, carries.function defines⟩

/-- What a session does leads from tagged constants to tagged constants. -/
theorem Carries.exists_after (carries : context.Carries tags) {change : Change}
    (inSession : change.InSession) : ∃ after, (context.after change).Carries after := by
  cases change with
  | enter line =>
    rw [Context.after]
    split
    · next next outcome entered => exact carries.exists_of_enter entered
    · exact ⟨tags, carries⟩
  | remove name =>
    rw [Context.after]
    cases removed : context.remove? name with
    | none => exact ⟨tags, carries⟩
    | some next => exact ⟨_, carries.remove removed⟩
  | load document =>
    rw [Context.after]
    split
    · next next loaded =>
      refine @of_toContext (fun context => ∃ tags, context.Carries tags) ?_ ⟨_, .fresh⟩ ?_
        document next loaded
      · rintro context next line outcome ⟨tags, carries⟩ entered
        exact carries.exists_of_enter entered
      · rintro context name entry value ⟨tags, carries⟩ _ read
        exact ⟨_, carries.entry read ((Document.toNumber_eq_ok_iff ..).mp read).tagged⟩
    · exact ⟨tags, carries⟩
  | define | removeConstant | removeFunction => contradiction

end

/-- The constants of every context that a session leads to are carried with tagged values. -/
theorem exists_carries_run {changes : List Change}
    (inSession : ∀ change ∈ changes, change.InSession) : ∃ tags, (run changes).Carries tags := by
  refine @of_run (fun context => ∃ tags, context.Carries tags) _ ⟨_, .fresh⟩ ?_ changes inSession
  rintro context change ⟨tags, carries⟩ allowed
  exact carries.exists_after allowed

end Context

end Reckoner
