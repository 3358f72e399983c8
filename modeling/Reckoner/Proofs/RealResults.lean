import Reckoner.Proofs.TaggedSessions
import Reckoner.Proofs.WellFormed
/-!
# Real and complex results

Real numbers lead to real ones as long as no function is used that may leave the real numbers. Since
the body of a user function is read with the values of the arguments, the bodies that a tree leads
to have to do without such functions as well. In the other direction a complex number does not get
lost: signs and the four basic operations have a complex result as soon as an operand is complex.
-/

open Relation

namespace Reckoner

/-- The function takes real numbers to real ones wherever they are. -/
def BuiltIn.staysReal : BuiltIn → Bool
  | .cos | .sin | .tan | .cot | .cosh | .sinh | .tanh | .coth => true
  | .arctan | .arccot | .arcsinh | .exp | .re | .im | .pow | .root => true
  | .arccos | .arcsin | .arccosh | .arctanh | .arccoth | .ln | .sqrt => false

/-- Such a function has a real value on real numbers. -/
theorem BuiltIn.isReal_apply {function : BuiltIn} (stays : function.staysReal = true)
    {values : List Number} (real : ∀ value ∈ values, value.isReal = true) {result : Number}
    (applied : function.apply values = some result) : result.isReal = true := by
  match values with
  | [] | _ :: _ :: _ :: _ => contradiction
  | [.complex _] | [.complex _, _] | [_, .complex _] => simp [Number.isReal] at real
  | [.real x] =>
    cases function <;> first | contradiction | (obtain rfl := Option.some.inj applied; rfl)
  | [.real x, .real y] =>
    cases function <;> first | contradiction | (obtain rfl := Option.some.inj applied; rfl)

/-- An operator has a real value on real numbers. -/
theorem Operator.isReal_apply {operator : Operator} {a b : Number} (first : a.isReal = true)
    (second : b.isReal = true) {result : Number} (applied : operator.apply a b = some result) :
    result.isReal = true := by
  match a, b with
  | .complex _, _ | _, .complex _ => contradiction
  | .real x, .real y =>
    cases operator with
    | assign => contradiction
    | add | sub | mul | div | pow =>
      obtain rfl := Option.some.inj applied
      rfl
    | mod =>
      obtain rfl := Option.some.inj applied
      rw [Number.mod]
      split <;> rfl

/-- A sign keeps the number set. -/
theorem Sign.isReal_apply (sign : Sign) (a : Number) : (sign.apply a).isReal = a.isReal := by
  cases sign <;> cases a <;> rfl

/-- The operator is one of the four basic operations. -/
def Operator.isBasic : Operator → Bool
  | .add | .sub | .mul | .div => true
  | .assign | .mod | .pow => false

/-- A basic operation has a value, and it is real exactly if both operands are. -/
theorem Operator.exists_apply_of_isBasic {operator : Operator} (basic : operator.isBasic = true)
    (a b : Number) : ∃ result, operator.apply a b = some result ∧
      (result.isReal = true ↔ a.isReal = true ∧ b.isReal = true) := by
  cases operator with
  | assign | mod | pow => contradiction
  | add | sub | mul | div =>
    refine ⟨_, rfl, ?_⟩
    cases a <;> cases b <;> simp [Number.add, Number.sub, Number.mul, Number.div, Number.combine,
      Number.isReal]

/-- The node does not leave the real numbers: its literal is real, its name stands for a parameter
or for no complex constant, and a built-in function that it calls stays real. -/
def Expr.isRealNode (context : Context) (parameters : List String) : Expr → Bool
  | number _ imaginary _ => !imaginary
  | constant _ name _ => decide (name ∈ parameters) || (context.constant? name).all Number.isReal
  | call .builtIn name _ _ => (BuiltIn.ofName? name).all BuiltIn.staysReal
  | call .user _ _ _ | call .unknown _ _ _ | signed .. | binary .. => true
  | value known => known.isReal

/-- The tree builds one from other trees with signs and the basic operations. They are listed in the
order of the line. -/
inductive Expr.Combines : List Expr → Expr → Prop
  /-- A tree is built from itself. -/
  | leaf (expr : Expr) : Combines [expr] expr
  /-- An operand gets a sign. -/
  | signed {leaves : List Expr} (sign : Sign) (position : Nat) {operand : Expr}
    (part : Combines leaves operand) : Combines leaves (.signed sign position operand)
  /-- Two operands are combined by a basic operation. -/
  | binary {first second : List Expr} {operator : Operator} (basic : operator.isBasic = true)
    (position : Nat) {left right : Expr} (before : Combines first left)
    (behind : Combines second right) :
    Combines (first ++ second) (.binary operator position left right)

namespace Context

variable (context : Context)

/-- No node of the tree leaves the real numbers. -/
def IsRealTree (parameters : List String) (expr : Expr) : Prop :=
  ∀ node ∈ expr.nodes, node.isRealNode context parameters = true

instance (parameters : List String) (expr : Expr) :
    Decidable (context.IsRealTree parameters expr) :=
  inferInstanceAs (Decidable (∀ node ∈ expr.nodes, _))

/-- The bodies of all user functions that the tree leads to do not leave the real numbers. -/
def LeadsToReal (expr : Expr) : Prop :=
  ∀ callee ∈ expr.callees, ∀ name, ReflTransGen context.Calls callee name →
    ∀ function, context.functions.find? name = some function →
      context.IsRealTree function.parameters function.body

variable {context}

/-- Values of several trees are real if each tree has real values only. -/
theorem HaveValues.isReal {arguments : List Expr} {values : List Number}
    (each : context.HaveValues arguments values)
    (real : ∀ argument ∈ arguments, ∀ value, context.eval? argument = some value →
      value.isReal = true) :
    ∀ value ∈ values, value.isReal = true := by
  induction each with
  | nil => exact List.forall_mem_nil _
  | cons first _ ih =>
    obtain ⟨here, others⟩ := List.forall_mem_cons.mp real
    exact List.forall_mem_cons.mpr ⟨here _ first, ih others⟩

/-- The arguments of a real call are real. -/
theorem IsRealTree.of_call {parameters : List String} {origin : Origin} {name : String}
    {position : Nat} {arguments : List Expr}
    (real : context.IsRealTree parameters (.call origin name position arguments)) :
    ∀ argument ∈ arguments, context.IsRealTree parameters argument := by
  intro argument member node inside
  apply real node
  rw [Expr.nodes, Expr.nodesAll_eq_flatMap]
  exact List.mem_cons_of_mem _ (List.mem_flatMap.mpr ⟨argument, member, inside⟩)

/-- The arguments of a call lead to what the call leads to. -/
theorem LeadsToReal.of_call {origin : Origin} {name : String} {position : Nat}
    {arguments : List Expr}
    (leads : context.LeadsToReal (.call origin name position arguments)) :
    ∀ argument ∈ arguments, context.LeadsToReal argument :=
  fun _ member callee called =>
    leads callee (Expr.mem_callees_call member called origin name position)

/-- The operands of a real tree are real. -/
theorem IsRealTree.of_binary {parameters : List String} {operator : Operator} {position : Nat}
    {left right : Expr}
    (real : context.IsRealTree parameters (.binary operator position left right)) :
    context.IsRealTree parameters left ∧ context.IsRealTree parameters right :=
  List.forall_mem_append.mp (List.forall_mem_cons.mp real).2

/-- Two operands lead to what they lead to together. -/
theorem LeadsToReal.of_binary {operator : Operator} {position : Nat} {left right : Expr}
    (leads : context.LeadsToReal (.binary operator position left right)) :
    context.LeadsToReal left ∧ context.LeadsToReal right :=
  List.forall_mem_append.mp leads

/-- The body of a called function is real and leads to what the call leads to. -/
theorem LeadsToReal.body {name : String} {position : Nat} {arguments : List Expr}
    (leads : context.LeadsToReal (.call .user name position arguments))
    {function : UserFunction} (found : context.functions.find? name = some function) :
    context.IsRealTree function.parameters function.body ∧
      context.LeadsToReal function.body := by
  have called : name ∈ (Expr.call .user name position arguments).callees := List.mem_cons_self
  refine ⟨leads name called name .refl function found, fun callee inner target path => ?_⟩
  exact leads name called target (path.head ⟨function, found, inner⟩)

/-- A real tree that leads to real bodies has a real value, if it has one, where real numbers stand
for the parameters. -/
theorem isReal_of_eval?_substitute (acyclic : context.functions.Acyclic) (expr : Expr) :
    ∀ {parameters : List String} {values : List Number} {value : Number},
      parameters.length = values.length → (∀ argument ∈ values, argument.isReal = true) →
      context.IsRealTree parameters expr → context.LeadsToReal expr →
      context.eval? (expr.substitute (parameters.zip (values.map .value))) = some value →
      value.isReal = true := by
  -- A body is read with other values, so the statement is about all real values of parameters.
  induction expr using evaluationInduction acyclic with
  | number spelling imaginary position =>
    intro parameters values value _ _ real _ evaluated
    have node := real _ List.mem_cons_self
    rw [Expr.substitute, eval?_number_eq_some_iff] at evaluated
    obtain rfl : imaginary = false := by simpa [Expr.isRealNode] using node
    rw [← evaluated]
    rfl
  | value known =>
    intro parameters values value _ _ real _ evaluated
    rw [Expr.substitute, eval?_value_eq_some_iff] at evaluated
    rw [← evaluated]
    exact real _ List.mem_cons_self
  | constant origin name position =>
    intro parameters values value fits given real _ evaluated
    have node := real _ List.mem_cons_self
    rw [Expr.substitute, lookup_zip_map] at evaluated
    cases bound : (parameters.zip values).lookup name with
    | some argument =>
      rw [bound, Option.map_some, Option.getD_some, eval?_value_eq_some_iff] at evaluated
      rw [← evaluated]
      exact given argument (List.of_mem_zip (Table.mem_of_lookup bound)).2
    | none =>
      rw [bound, Option.map_none, Option.getD_none, eval?_constant_eq_some_iff] at evaluated
      have free := (lookup_zip_eq_none_iff fits name).mp bound
      simpa [Expr.isRealNode, free, evaluated.2] using node
  | signed sign position operand ih =>
    intro parameters values value fits given real leads evaluated
    rw [Expr.substitute, eval?_signed_eq_some_iff] at evaluated
    obtain ⟨a, part, rfl⟩ := evaluated
    rw [sign.isReal_apply]
    exact ih fits given (fun node inside => real node (List.mem_cons_of_mem _ inside)) leads part
  | binary operator position left right leftIh rightIh =>
    intro parameters values value fits given real leads evaluated
    rw [Expr.substitute, eval?_binary_eq_some_iff] at evaluated
    obtain ⟨a, b, first, second, applied⟩ := evaluated
    obtain ⟨realLeft, realRight⟩ := real.of_binary
    obtain ⟨leadsLeft, leadsRight⟩ := leads.of_binary
    exact Operator.isReal_apply (leftIh fits given realLeft leadsLeft first)
      (rightIh fits given realRight leadsRight second) applied
  | call origin name position arguments ih bodyIh =>
    intro parameters values value fits given real leads evaluated
    have each : ∀ argument ∈
        arguments.map (Expr.substitute (parameters.zip (values.map .value))),
        ∀ value, context.eval? argument = some value → value.isReal = true := by
      rw [List.forall_mem_map]
      intro argument member value evaluated
      exact ih argument member fits given (real.of_call argument member)
        (leads.of_call argument member) evaluated
    rw [Expr.substitute, Expr.substituteAll_eq_map] at evaluated
    cases origin with
    | unknown =>
      rw [eval?_call_unknown] at evaluated
      contradiction
    | builtIn =>
      obtain ⟨function, inner, known, valued, applied⟩ :=
        (eval?_call_builtIn_eq_some_iff ..).mp evaluated
      have node := real _ List.mem_cons_self
      rw [Expr.isRealNode, known] at node
      exact BuiltIn.isReal_apply node (valued.isReal each) applied
    | user =>
      obtain ⟨function, inner, found, enough, valued, inside⟩ :=
        (eval?_call_user_eq_some_iff acyclic ..).mp evaluated
      obtain ⟨realBody, further⟩ := leads.body found
      exact bodyIh function rfl found enough (valued.isReal each) realBody further inside

/-- A real tree that leads to real bodies comes to a real number. -/
theorem isReal_evaluate (acyclic : context.functions.Acyclic) {expr : Expr}
    (real : context.IsRealTree [] expr) (leads : context.LeadsToReal expr) :
    (context.evaluate expr).isReal = true := by
  rw [evaluate]
  cases evaluated : context.eval? expr with
  | none => rfl
  | some value =>
    rw [← Expr.substitute_nil expr] at evaluated
    exact @isReal_of_eval?_substitute _ acyclic expr [] [] value rfl (List.forall_mem_nil _) real
      leads evaluated

/-- A tree that is built from trees with values by signs and basic operations has a value, and it is
real exactly if all of theirs are. -/
theorem exists_eval?_of_combines {leaves : List Expr} {expr : Expr}
    (built : Expr.Combines leaves expr)
    (valued : ∀ leaf ∈ leaves, (context.eval? leaf).isSome = true) :
    ∃ value, context.eval? expr = some value ∧
      (value.isReal = true ↔ ∀ leaf ∈ leaves, (context.evaluate leaf).isReal = true) := by
  induction built with
  | leaf expr =>
    obtain ⟨value, evaluated⟩ :=
      Option.isSome_iff_exists.mp (valued expr (List.mem_singleton_self _))
    refine ⟨value, evaluated, ?_⟩
    rw [List.forall_mem_singleton, evaluate, evaluated, Option.getD_some]
  | signed sign position _ ih =>
    obtain ⟨a, evaluated, real⟩ := ih valued
    refine ⟨sign.apply a, (eval?_signed_eq_some_iff ..).mpr ⟨a, evaluated, rfl⟩, ?_⟩
    rw [sign.isReal_apply, real]
  | binary basic position _ _ beforeIh behindIh =>
    obtain ⟨valuedBefore, valuedBehind⟩ := List.forall_mem_append.mp valued
    obtain ⟨a, first, realBefore⟩ := beforeIh valuedBefore
    obtain ⟨b, second, realBehind⟩ := behindIh valuedBehind
    obtain ⟨value, applied, real⟩ := Operator.exists_apply_of_isBasic basic a b
    refine ⟨value, (eval?_binary_eq_some_iff ..).mpr ⟨a, b, first, second, applied⟩, ?_⟩
    rw [real, realBefore, realBehind, List.forall_mem_append]

end Context

/-- A real value has the imaginary part `+0`. -/
def Tagged.IsFlat (tagged : Tagged) : Prop := tagged.kind = .real → tagged.value.im = 0

namespace Session

/-- In every session, whatever lines were entered, commands carried out and documents loaded: kept
with tagged values, the constants and everything a tree comes to are the tagged values of the
numbers, and those that are real have the imaginary part `+0`. A tree of real literals and constants
without a function that may leave the real numbers comes to a real number if the bodies that it
leads to are such trees as well. And a tree that is built by signs and basic operations from trees
with values, one of which is complex, has a complex value. -/
theorem tagged_results (settings : Settings) (inputs : List (Disk × String)) {context : Context}
    (visited : context = (visit settings inputs).context) :
    (∃ tags, context.Carries tags ∧
      (∀ name, tags name = (context.constants.find? name).map Number.tagged) ∧
      (∀ expr tagged, context.ComesTo tags expr tagged ↔
        (context.evaluate expr).tagged = tagged) ∧
      (∀ name tagged, tags name = some tagged → tagged.IsFlat) ∧
      ∀ expr tagged, context.ComesTo tags expr tagged → tagged.IsFlat) ∧
    (∀ expr, context.IsRealTree [] expr → context.LeadsToReal expr →
      (context.evaluate expr).isReal = true) ∧
    ∀ leaves expr, Expr.Combines leaves expr →
      (∀ leaf ∈ leaves, (context.eval? leaf).isSome = true) →
      (∃ leaf ∈ leaves, (context.evaluate leaf).isReal = false) →
      ∃ z, context.eval? expr = some (.complex z) := by
  obtain ⟨changes, inSession, same⟩ := exists_changes_visit settings inputs
  obtain rfl := visited.trans same
  have acyclic := Context.kept_acyclic.run changes
  refine ⟨?_, fun expr => Context.isReal_evaluate acyclic, fun leaves expr built valued => ?_⟩
  · obtain ⟨tags, carries⟩ := Context.exists_carries_run inSession
    have keeps := carries.keepsTags
    have comes := Context.comesTo_iff acyclic keeps
    refine ⟨tags, carries, keeps, comes, fun name tagged kept => ?_, fun expr tagged result => ?_⟩
    · rw [keeps name, Option.map_eq_some_iff] at kept
      obtain ⟨number, _, rfl⟩ := kept
      exact number.im_tagged
    · obtain rfl := (comes expr tagged).mp result
      exact Number.im_tagged
  · rintro ⟨leaf, member, complex⟩
    obtain ⟨value, evaluated, real⟩ := Context.exists_eval?_of_combines built valued
    cases value with
    | complex z => exact ⟨z, evaluated⟩
    | real x =>
      have allReal := real.mp rfl leaf member
      rw [complex] at allReal
      contradiction

/-- The text of a document whose real constant is listed with a negative imaginary part. -/
def tiltedText : String :=
  "\x7b\"constants\": \x7b\"k\": \x7b\"type\": \"Real\", \"re\": 2, \"im\": -3\x7d\x7d, " ++
    "\"functions\": \x7b\x7d\x7d"

/-- The document. -/
def tiltedDocument : Json :=
  .ofMembers
    [("constants", .ofMembers
      [("k", .ofMembers [("type", .string "Real"), ("re", .number 2), ("im", .number (-3))])]),
      ("functions", .ofMembers [])]

/-- A disk with the document, and a library that reads it. -/
def tiltedDisk : Disk where
  json := ⟨fun text => if text = tiltedText then .document tiltedDocument else .refused "",
    fun _ => ""⟩
  read? path := if path = "tilted" then some tiltedText else none
  write _ _ := .unopened

/-- Lines that load the document, define a complex constant and a function that stays real. -/
def tiltedInputs : List (Disk × String) :=
  [(tiltedDisk, "load tilted"), (tiltedDisk, "z = 2i"), (tiltedDisk, "f(x) = sin(x) ^ k")]

/-- The tree of `-f(3) % 2`. -/
def tiltedCall : Expr :=
  .binary .mod 6 (.signed .minus 0 (.call .user "f" 1 [.number "3" false 3])) (.number "2" false 8)

/-- The leaves of `k*-z - 1`. -/
def tiltedLeaves : List Expr :=
  [.constant .user "k" 0, .constant .user "z" 3, .number "1" false 7]

/-- The tree of `k*-z - 1`. -/
def tiltedDifference : Expr :=
  .binary .sub 5
    (.binary .mul 1 (.constant .user "k" 0) (.signed .minus 2 (.constant .user "z" 3)))
    (.number "1" false 7)

/-- The listed imaginary part is gone after loading, the call of the function stays real, and what
is computed with the complex constant is complex. -/
theorem tilted_results :
    (∃ tags, (visit {} tiltedInputs).context.Carries tags ∧ tags "k" = some (.ofReal 2) ∧
      (Tagged.ofReal 2).IsFlat) ∧
    ((visit {} tiltedInputs).context.evaluate tiltedCall).isReal = true ∧
    ∃ z, (visit {} tiltedInputs).context.eval? tiltedDifference = some (.complex z) := by
  have kept : (visit {} tiltedInputs).context.constants.find? "k" = some (.real 2) := by
    decide +kernel
  have real : (visit {} tiltedInputs).context.IsRealTree [] tiltedCall := by decide +kernel
  have bodies : ∀ entry ∈ (visit {} tiltedInputs).context.functions.entries,
      (visit {} tiltedInputs).context.IsRealTree entry.2.parameters entry.2.body := by
    decide +kernel
  have valued : ∀ leaf ∈ tiltedLeaves,
      ((visit {} tiltedInputs).context.eval? leaf).isSome = true := by
    decide +kernel
  have complex : ∃ leaf ∈ tiltedLeaves,
      ((visit {} tiltedInputs).context.evaluate leaf).isReal = false := by
    decide +kernel
  have built : Expr.Combines tiltedLeaves tiltedDifference :=
    .binary rfl 5 (.binary rfl 1 (.leaf _) (.signed .minus 2 (.leaf _))) (.leaf _)
  obtain ⟨⟨tags, carries, numbers, _, flat, _⟩, stays, spreads⟩ :=
    tagged_results {} tiltedInputs rfl
  have tag : tags "k" = some (.ofReal 2) := by rw [numbers, kept, Option.map_some, Number.tagged]
  refine ⟨⟨tags, carries, tag, flat "k" _ tag⟩, stays tiltedCall real ?_,
    spreads tiltedLeaves tiltedDifference built valued complex⟩
  intro callee _ name _ function found
  exact bodies (name, function) (Table.mem_of_lookup found)

end Session

end Reckoner
