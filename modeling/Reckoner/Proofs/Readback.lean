import Reckoner.Number.Format
import Reckoner.Proofs.Evaluation
import Reckoner.Proofs.Literals
import Reckoner.Proofs.Numerals
import Reckoner.Proofs.Printing
import Reckoner.Proofs.Zeros
/-!
# Integers are read back

In the bases two, eight and sixteen an integer is written as its numeral behind the marker of the
base, whatever its magnitude is and however many digits are asked for. Entered as a line, the text
is read as the tree it was written from: a literal, or its negative, and for a complex number the
sum or the difference of such a real part and an imaginary literal. The digits are taken up without
rounding, and the zeros that the parts of a complex number are combined with do not change them.
-/

namespace Reckoner

/-- A real number is combined with an imaginary one, of which the sign is written as operator. -/
theorem exists_apply_unit {y part : Binary64} (finite : y.isFinite = true)
    (alsoFinite : part.isFinite = true) :
    ∃ result : Complex,
      (if part.negative then Operator.sub else .add).apply (.real y) (.complex ⟨0, part.abs⟩) =
          some (.complex result) ∧
        Binary64.SameValue result.re y ∧ Binary64.SameValue result.im part := by
  have zero : (0 : Binary64).isFinite = true ∧ (0 : Binary64).units = 0 := by decide +kernel
  have minus : (-0 : Binary64).isFinite = true ∧ (-0 : Binary64).units = 0 := zero
  have behind := Binary64.sameValue_zero_add zero.1 zero.2 alsoFinite
  cases sign : part.negative with
  | false =>
    have same : part.abs = part := Binary64.ext sign.symm rfl
    refine ⟨⟨y + 0, 0 + part⟩, ?_, Binary64.sameValue_add finite zero.1 zero.2, behind⟩
    rw [if_neg Bool.false_ne_true, same]
    rfl
  | true =>
    have same : -part.abs = part := Binary64.ext sign.symm rfl
    have re : y - 0 = y + -0 := Binary64.sub_of_isFinite finite zero.1
    have im : 0 - part.abs = 0 + -part.abs := Binary64.sub_of_isFinite zero.1 alsoFinite
    refine ⟨⟨y + -0, 0 + -part.abs⟩, ?_, Binary64.sameValue_add finite minus.1 minus.2, ?_⟩
    · rw [if_pos rfl, ← re, ← im]
      rfl
    · rwa [same]

namespace Base

variable (base : Base)

/-- The digits of a number that is a double denote it, though every step of the reader rounds: the
number without some of its last digits is a double as well. -/
theorem valueOf_toDigits {number : Nat} (exact : Binary64.IsExact number) :
    base.valueOf (Nat.toDigits base.size number) = Binary64.nearest number 1 := by
  induction number using numeralInduction base.one_lt_size with
  | digit number small =>
    have value := digitValue?_digitChar (Nat.lt_of_lt_of_le small base.size_le)
    have zero : Binary64.IsExact (0 * base.size) := .of_le (by omega)
    have taken := base.nearest_mul_add (.of_le (Nat.zero_le 16)) zero small
    rw [Nat.zero_mul, Nat.zero_add] at taken
    rw [valueOf, List.foldl_cons, List.foldl_nil, value]
    exact taken
  | behind number _ ih =>
    have small : number % base.size < base.size :=
      Nat.mod_lt number (Nat.lt_trans Nat.one_pos base.one_lt_size)
    have value := digitValue?_digitChar (Nat.lt_of_lt_of_le small base.size_le)
    obtain ⟨bits, power⟩ := base.exists_size_eq
    have fewer : Binary64.IsExact (number / base.size) := by
      rw [power]
      exact exact.div_two_pow bits
    have shifted : Binary64.IsExact (number / base.size * base.size) := by
      rw [power]
      exact exact.div_two_pow_mul bits
    rw [valueOf_concat, ih fewer, value, Option.getD_some, base.nearest_mul_add fewer shifted small,
      Nat.div_add_mod']

/-- The literal of a number: its numeral behind the marker of the base. -/
def literal (number : Nat) : List Char := '0' :: base.letter :: Nat.toDigits base.size number

/-- The marker of a literal is read as that of its base. -/
theorem marked?_literal (number : Nat) :
    Literal.marked? (base.literal number) = some (base, Nat.toDigits base.size number) := by
  cases digits : Nat.toDigits base.size number with
  | nil => exact absurd digits Nat.toDigits_ne_nil
  | cons first others =>
    rw [literal, digits, Literal.marked?, base.ofLetter?_letter]
    rfl

/-- The literal of a number that is a double denotes it. -/
theorem value_literal {number : Nat} (exact : Binary64.IsExact number) :
    Literal.value (base.literal number) = Binary64.nearest number 1 := by
  rw [Literal.value, base.marked?_literal]
  exact base.valueOf_toDigits exact

/-- The literal of a number is a literal as a whole. -/
theorem isWhole_literal (number : Nat) : Literal.IsWhole (base.literal number) := by
  have digits : ∀ c ∈ Nat.toDigits base.size number, base.isDigit c = true := by
    intro c member
    obtain ⟨digit, small, rfl⟩ := base.exists_digit_of_mem_toDigits number c member
    rw [isDigit, digitValue?_digitChar (Nat.lt_of_lt_of_le small base.size_le)]
    exact decide_eq_true small
  exact Literal.isWhole_of_isBody (.marked base Nat.toDigits_ne_nil digits) rfl

/-- A natural number is written as its numeral, without a fraction. -/
theorem expansion_of_isNatural (places : Nat) {x : Binary64} (natural : x.IsNatural)
    (finite : x.isFinite = true) (positive : x.negative = false) :
    base.expansion places x finite positive = Nat.toDigits base.size x.ones := by
  have noPlaces : base.fractionDigits places (x - x.floor) = [] := by
    rw [natural.floor_eq, Binary64.sub_self finite]
    have nothing : ((0 : Binary64) == 0) = true := by decide +kernel
    cases places with
    | zero => rfl
    | succ places => rw [fractionDigits, if_pos nothing]
  rw [expansion, reverse_wholeDigits, noPlaces, (Binary64.isNatural_floor finite positive).2]
  rfl

/-- The magnitude of an integer is written as the literal of its absolute value. -/
theorem magnitude_radix (precision : Precision) {x : Binary64} (integer : x.IsInteger) :
    Format.magnitude ⟨base.radix, precision⟩ x integer.1 = base.literal x.ones := by
  have natural : x.abs.IsNatural := ⟨integer, rfl⟩
  have digits := base.expansion_of_isNatural precision.digits natural integer.1 rfl
  cases base <;> exact congrArg (fun digits => '0' :: letter _ :: digits) digits

/-- The literal of the absolute value of a double. -/
def spelling (x : Binary64) : String := String.ofList (base.literal x.ones)

/-- The literal of the absolute value of a double is a literal as a whole. -/
theorem isWhole_spelling (x : Binary64) : Literal.IsWhole (base.spelling x).toList := by
  rw [spelling, String.toList_ofList]
  exact base.isWhole_literal _

/-- The literal of the absolute value of an integer denotes it. -/
theorem value_spelling {x : Binary64} (integer : x.IsInteger) :
    Literal.value (base.spelling x).toList = x.abs := by
  rw [spelling, String.toList_ofList, base.value_literal (.of_isFinite integer.1),
    Binary64.nearest_ones integer]

/-- The tree that an integer is written as: a literal, behind a sign if it is negative. -/
def tree (x : Binary64) : Expr :=
  if x.negative ∧ x.units ≠ 0 then .signed .minus 0 (.number (base.spelling x) false 0)
  else .number (base.spelling x) false 0

/-- The tree that a number with integers as parts is written as: that of its real part, and the
imaginary literal behind the sign of the imaginary part. -/
def numberTree : Number → Expr
  | .real x => base.tree x
  | .complex z =>
    .binary (if z.im.negative then .sub else .add) 0 (base.tree z.re)
      (.number (base.spelling z.im) true 0)

/-- The tree of an integer has no operator at its root. -/
theorem rootPrecedence?_tree (x : Binary64) : (base.tree x).rootPrecedence? = none := by
  unfold tree
  split <;> rfl

/-- An integer is written as its tree is printed. -/
theorem float_eq_print (precision : Precision) {x : Binary64} (integer : x.IsInteger) :
    Format.float ⟨base.radix, precision⟩ x = (base.tree x).print := by
  rw [Format.float_of_isFinite _ integer.1, Format.finite,
    base.magnitude_radix precision integer, tree]
  split
  · exact String.ext (by simp [Expr.print, Expr.enclosed, Expr.rootPrecedence?, spelling]; rfl)
  · rfl

/-- The absolute value of an integer is written as its literal. -/
theorem float_abs (precision : Precision) {x : Binary64} (integer : x.IsInteger) :
    Format.float ⟨base.radix, precision⟩ x.abs = base.spelling x := by
  have positive : ¬ (x.abs.negative = true ∧ x.abs.units ≠ 0) := fun signed =>
    Bool.false_ne_true signed.1
  have alsoInteger : x.abs.IsInteger := integer
  rw [base.float_eq_print precision alsoInteger, tree, if_neg positive]
  rfl

/-- A number with integers as parts is written as its tree is printed. -/
theorem number_eq_print (precision : Precision) {number : Number} (re : number.re.IsInteger)
    (im : number.im.IsInteger) :
    Format.number ⟨base.radix, precision⟩ number = (base.numberTree number).print := by
  cases number with
  | real x => exact base.float_eq_print precision re
  | complex z =>
    have isNumber : z.isNaN = false := by
      obtain ⟨_, first⟩ := (Binary64.isFinite_eq_true_iff z.re).mp re.1
      obtain ⟨_, second⟩ := (Binary64.isFinite_eq_true_iff z.im).mp im.1
      rw [Complex.isNaN, first, second]
      rfl
    have front : Format.float ⟨base.radix, precision⟩ z.re = (base.tree z.re).print :=
      base.float_eq_print precision re
    have behind : Format.float ⟨base.radix, precision⟩ z.im.abs = base.spelling z.im :=
      base.float_abs precision im
    simp only [Format.number, isNumber, front, behind, numberTree, Expr.print,
      rootPrecedence?_tree, String.append_assoc]
    cases z.im.negative <;> rfl

/-- The literals of the tree of an integer can be read back. -/
theorem built_tree (x : Binary64) : (base.tree x).Built Lexeme.IsLegible := by
  have leaf := base.isWhole_spelling x
  unfold tree
  split
  · exact .signed .minus 0 (.number 0 leaf)
  · exact .number 0 leaf

/-- The literals of the tree of a number can be read back. -/
theorem built_numberTree (number : Number) : (base.numberTree number).Built Lexeme.IsLegible := by
  cases number with
  | real x => exact base.built_tree x
  | complex z => exact .binary _ 0 (base.built_tree z.re) (.number 0 (base.isWhole_spelling z.im))

/-- The tree of an integer has no names, whatever the parameters are. -/
theorem resolved_tree (context : Context) (x : Binary64) :
    context.Resolved [] (base.tree x) := by
  unfold tree
  split
  · exact .signed .minus 0 (.number ..)
  · exact .number ..

/-- The tree of a number has no names. -/
theorem resolved_numberTree (context : Context) (number : Number) :
    context.Resolved [] (base.numberTree number) := by
  cases number with
  | real x => exact base.resolved_tree context x
  | complex z =>
    have pure : (if z.im.negative then Operator.sub else .add) ≠ .assign := by
      cases z.im.negative <;> decide
    exact .binary 0 pure (base.resolved_tree context z.re) (.number ..)

/-- A context gives the tree of a number no origins. -/
theorem relabel_numberTree (context : Context) (number : Number) :
    (base.numberTree number).relabel (.resolve context) = base.numberTree number := by
  have part (x : Binary64) : (base.tree x).relabel (.resolve context) = base.tree x := by
    unfold tree
    split <;> rfl
  cases number with
  | real x => exact part x
  | complex z =>
    rw [numberTree, Expr.relabel, part]
    rfl

/-- The tree of an integer has its value. A zero loses its sign. -/
theorem exists_eval?_tree (context : Context) {x : Binary64} (integer : x.IsInteger) :
    ∃ y, context.eval? (base.tree x) = some (.real y) ∧ Binary64.SameValue y x := by
  have literal : literalValue (base.spelling x) false = .real x.abs := by
    rw [literalValue, base.value_spelling integer]
    rfl
  unfold tree
  split
  · next signed =>
    have negative : -x.abs = x := Binary64.ext signed.1.symm rfl
    refine ⟨x, ?_, .refl integer.1⟩
    show some (Number.neg (literalValue (base.spelling x) false)) = _
    rw [literal, Number.neg, negative]
  · next unsigned =>
    refine ⟨x.abs, congrArg some literal, ?_⟩
    by_cases noUnits : x.units = 0
    · exact .of_units_eq_zero integer.1 integer.1 noUnits noUnits
    · have positive : x.negative = false := by
        rw [Bool.eq_false_iff]
        exact fun negative => unsigned ⟨negative, noUnits⟩
      have same : x.abs = x := Binary64.ext positive.symm rfl
      rw [same]
      exact .refl integer.1

/-- The tree of a number with integers as parts has its value, and it is real exactly if the number
is. -/
theorem exists_eval?_numberTree (context : Context) {number : Number} (re : number.re.IsInteger)
    (im : number.im.IsInteger) :
    ∃ result, context.eval? (base.numberTree number) = some result ∧
      result.isReal = number.isReal ∧ Binary64.SameValue result.re number.re ∧
      Binary64.SameValue result.im number.im := by
  obtain ⟨y, value, same⟩ := base.exists_eval?_tree context re
  cases number with
  | real x => exact ⟨.real y, value, rfl, same, .refl im.1⟩
  | complex z =>
    have part : z.im.IsInteger := im
    have literal : literalValue (base.spelling z.im) true = .complex ⟨0, z.im.abs⟩ := by
      rw [literalValue, base.value_spelling part]
      rfl
    obtain ⟨result, combined, re, im⟩ := exists_apply_unit same.finite part.1
    have whole : context.eval? (base.numberTree (.complex z)) = some (.complex result) := by
      rw [numberTree, Context.eval?_binary_eq_some_iff]
      exact ⟨.real y, _, value, congrArg some literal, combined⟩
    exact ⟨.complex result, whole, rfl, re.trans same, im⟩

/-- The tree of a number is no definition. -/
theorem isExpression_numberTree (number : Number) :
    Context.IsExpression (base.numberTree number) := by
  cases number with
  | real x =>
    intro position left right same
    rw [numberTree, tree] at same
    split at same <;> contradiction
  | complex z =>
    rw [numberTree, Context.isExpression_binary_iff]
    cases z.im.negative <;> decide

end Base

namespace Context

/-- The value of a tree does not depend on positions. -/
theorem eval?_unplaced (context : Context) (expr : Expr) :
    context.eval? (expr.relabel .unplaced) = context.eval? expr := by
  unfold eval?
  induction expr with
  | number | value => rfl
  | constant origin name position => cases origin <;> rfl
  | call origin name position arguments ih =>
    have each := @Expr.evalAllWith_map_congr context.constant?
      (context.callWithin context.functions.size) (Expr.relabel .unplaced) id arguments ih
    rw [List.map_id] at each
    rw [Expr.relabel, Expr.relabelAll_eq_map]
    cases origin with
    | builtIn | user =>
      rw [Expr.evalWith, ← each]
      rfl
    | unknown => rfl
  | signed sign position operand ih => rw [Expr.relabel, Expr.evalWith, Expr.evalWith, ih]
  | binary operator position left right leftIh rightIh =>
    rw [Expr.relabel, Expr.evalWith, Expr.evalWith, leftIh, rightIh]

/-- A line that is printed from a tree is answered with the value of the tree, if the tree is an
expression whose names are resolved. -/
theorem enter_print (context : Context) {tree : Expr} {result : Number}
    (built : tree.Built Lexeme.IsLegible) (expression : IsExpression tree)
    (resolved : context.Resolved [] tree)
    (value : context.eval? (tree.relabel (.resolve context)) = some result) :
    context.enter tree.print = .ok (context.keepAnswer result, .value result) := by
  obtain ⟨again, read, same⟩ := exists_lineTree_of_built built
  have alsoExpression : IsExpression again := by
    rwa [← isExpression_relabel_iff .unplaced, same, isExpression_relabel_iff]
  have alsoResolved : context.Resolved [] again := by
    rwa [← context.resolved_relabel .unplaced, same, context.resolved_relabel]
  have labelled : (again.relabel (.resolve context)).relabel .unplaced =
      (tree.relabel (.resolve context)).relabel .unplaced := by
    have origins := congrArg (Expr.relabel (.resolve context)) same
    rw [Expr.relabel_relabel, Expr.relabel_relabel] at origins ⊢
    exact origins
  have evaluated : context.evaluate (again.relabel (.resolve context)) = result := by
    rw [evaluate, ← eval?_unplaced, labelled, eval?_unplaced, value, Option.getD_some]
  have parsed := (context.parse_expression_eq_ok_iff read alsoExpression _).mpr
    ⟨rfl, alsoResolved⟩
  have labelledExpression := (isExpression_relabel_iff (.resolve context) again).mpr alsoExpression
  rw [context.enter_expression parsed labelledExpression, evaluated]

/-- An integer that is written in the base two, eight or sixteen, or a complex number whose parts
are integers, is accepted as a line in every context, however large it is and with every precision.
It is answered with a number of the same kind, whose parts are equal to those of the number. -/
theorem enter_formatted_integers (context : Context) (base : Base) (precision : Precision)
    {number : Number} (re : number.re.IsInteger) (im : number.im.IsInteger) :
    ∃ next result,
      context.enter (Format.number ⟨base.radix, precision⟩ number) =
          .ok (next, .value result) ∧
        result.isReal = number.isReal ∧ (result.re == number.re) = true ∧
        (result.im == number.im) = true := by
  obtain ⟨result, value, kind, sameRe, sameIm⟩ := base.exists_eval?_numberTree context re im
  rw [← base.relabel_numberTree context number] at value
  have entered := context.enter_print (base.built_numberTree number)
    (base.isExpression_numberTree number) (base.resolved_numberTree context number) value
  rw [base.number_eq_print precision re im]
  exact ⟨_, result, entered, kind, sameRe.beq, sameIm.beq⟩

/-- A complex number of two negative parts. In base sixteen the real one ends with the letter of an
exponent, and the imaginary one needs more digits than a significand has. -/
def hexNumber : Number := .complex ⟨-30, -18446744073709555712⟩

/-- The text of the number in base sixteen is read back. -/
theorem enter_formatted_hexNumber :
    hexNumber.re.IsInteger ∧ hexNumber.im.IsInteger ∧
      Format.number ⟨Base.hex.radix, .initial⟩ hexNumber = "-0x1e-0x10000000000001000i" ∧
      ∃ next result,
        Context.enter {} "-0x1e-0x10000000000001000i" = .ok (next, .value result) ∧
          result.isReal = hexNumber.isReal ∧ (result.re == hexNumber.re) = true ∧
          (result.im == hexNumber.im) = true := by
  have re : hexNumber.re.IsInteger := by decide +kernel
  have im : hexNumber.im.IsInteger := by decide +kernel
  have text : Format.number ⟨Base.hex.radix, .initial⟩ hexNumber =
      "-0x1e-0x10000000000001000i" := by
    decide +kernel
  have entered := enter_formatted_integers {} .hex .initial re im
  rw [text] at entered
  exact ⟨re, im, text, entered⟩

end Context

end Reckoner
