import Reckoner.Binary64.Significand
import Reckoner.Proofs.Digits
import Reckoner.Proofs.LiteralGrammar
/-!
# Signs in front of zeros

A finite double is written with a sign if it is below zero. In the decimal forms it is rounded to
significant digits, and the first of these is no zero unless the double is zero. In the bases two,
eight and sixteen digits beyond the precision are cut off, and the sign does not ask what is left:
the digits behind it denote zero exactly if the double is below the last place.
-/

namespace Reckoner

/-- A positive number is not below the power of ten of its leading digit. -/
theorem pow_length_toDigits_le {number : Nat} (positive : 0 < number) :
    10 ^ ((Nat.toDigits 10 number).length - 1) ≤ number := by
  by_cases one : (Nat.toDigits 10 number).length - 1 = 0
  · rw [one]
    exact positive
  · rw [← Nat.not_lt, ← Nat.length_toDigits_le_iff (by decide) (Nat.pos_of_ne_zero one)]
    omega

/-- The multiplications by ten suffice if so many do. -/
theorem le_mul_pow_tensToReach {num den : Nat} (limit : Nat) (enough : den ≤ num * 10 ^ limit) :
    den ≤ num * 10 ^ tensToReach num den limit := by
  induction limit generalizing num with
  | zero => exact enough
  | succ limit ih =>
    rw [tensToReach]
    split
    · next reached => simpa using reached
    · rw [Nat.pow_succ', ← Nat.mul_assoc] at enough ⊢
      exact ih enough

/-- A positive quotient is not below the power of ten of its leading digit. -/
theorem zpow_leadingExponent_le {num den : Nat} (positive : 0 < num) (alsoPositive : 0 < den) :
    (10 : ℚ) ^ leadingExponent num den ≤ num / den := by
  have below : (0 : ℚ) < den := Nat.cast_pos.mpr alsoPositive
  rw [le_div_iff₀ below, leadingExponent]
  split
  · next large =>
    have quotient := pow_length_toDigits_le (Nat.div_pos large alsoPositive)
    have digits : 0 < (Nat.toDigits 10 (num / den)).length :=
      List.length_pos_iff.mpr Nat.toDigits_ne_nil
    have power : ((Nat.toDigits 10 (num / den)).length : Int) - 1 =
        ((Nat.toDigits 10 (num / den)).length - 1 : Nat) := by omega
    rw [power, zpow_natCast]
    exact_mod_cast (Nat.le_div_iff_mul_le alsoPositive).mp quotient
  · have limit : den ≤ num * 10 ^ (den.log2 + 1) := by
      calc
        den ≤ 2 ^ (den.log2 + 1) := Nat.lt_log2_self.le
        _ ≤ 10 ^ (den.log2 + 1) := Nat.pow_le_pow_left (by decide) _
        _ ≤ num * 10 ^ (den.log2 + 1) := Nat.le_mul_of_pos_left _ positive
    have reached := le_mul_pow_tensToReach _ limit
    have ten : (0 : ℚ) < 10 ^ tensToReach num den (den.log2 + 1) := by positivity
    rw [zpow_neg, zpow_natCast, inv_mul_le_iff₀ ten, mul_comm]
    exact_mod_cast reached

/-- What is not below one is rounded to a positive number. -/
theorem roundHalfEven_pos {num den : Nat} (alsoPositive : 0 < den) (large : den ≤ num) :
    0 < roundHalfEven num den := by
  have quotient := Nat.div_pos large alsoPositive
  rcases roundHalfEven_cases num den with same | same <;> omega

/-- A quotient that is shifted so far that it is not below one is rounded to a positive number. -/
theorem roundedTimesTenTo_pos {num den : Nat} (alsoPositive : 0 < den) {power : Int}
    (large : 1 ≤ (num / den : ℚ) * 10 ^ power) : 0 < roundedTimesTenTo num den power := by
  have below : (0 : ℚ) < den := Nat.cast_pos.mpr alsoPositive
  rw [div_mul_eq_mul_div, one_le_div₀ below] at large
  unfold roundedTimesTenTo
  split
  · next up =>
    lift power to Nat using up
    rw [zpow_natCast] at large
    apply roundHalfEven_pos alsoPositive
    exact_mod_cast large
  · next down =>
    obtain ⟨places, rfl⟩ : ∃ places : Nat, power = -places := ⟨(-power).toNat, by omega⟩
    have ten : (0 : ℚ) < 10 ^ places := by positivity
    rw [zpow_neg, zpow_natCast, ← div_eq_mul_inv, le_div_iff₀ ten] at large
    rw [neg_neg, Int.toNat_natCast]
    apply roundHalfEven_pos (Nat.mul_pos alsoPositive (Nat.pow_pos (by decide)))
    exact_mod_cast large

/-- A positive quotient has significant digits that are not all zero. -/
theorem Scientific.digits_ofRatio_pos {num den count : Nat} (positive : 0 < num)
    (alsoPositive : 0 < den) (several : 0 < count) : 0 < (ofRatio num den count).digits := by
  have leading := zpow_leadingExponent_le positive alsoPositive
  have large : 1 ≤ (num / den : ℚ) * 10 ^ ((count : Int) - 1 - leadingExponent num den) := by
    calc
      (1 : ℚ) ≤ 10 ^ ((count : Int) - 1) := one_le_zpow₀ (by norm_num) (by omega)
      _ = 10 ^ leadingExponent num den * 10 ^ ((count : Int) - 1 - leadingExponent num den) := by
        rw [← zpow_add₀ (by norm_num)]
        congr 1
        omega
      _ ≤ _ := mul_le_mul_of_nonneg_right leading (zpow_nonneg (by norm_num) _)
  unfold ofRatio
  dsimp only
  split
  · exact Nat.pow_pos (by decide)
  · exact roundedTimesTenTo_pos alsoPositive large

/-- Zeros at the end do not matter to whether digits denote zero. -/
theorem numberOf_append_trimZeros (front digits : List Char) :
    numberOf 10 (front ++ trimZeros digits) = 0 ↔ numberOf 10 (front ++ digits) = 0 := by
  obtain ⟨⟨count, same⟩, _⟩ := exists_trimZeros digits
  have longer : numberOf 10 (front ++ digits) =
      numberOf 10 (front ++ trimZeros digits) * 10 ^ count := by
    conv_lhs => rw [same]
    rw [← List.append_assoc, numberOf_append, numberOf_replicate_zero, List.length_replicate,
      Nat.add_zero]
  have power : 10 ^ count ≠ 0 := Nat.pos_iff_ne_zero.mp (Nat.pow_pos (by decide))
  rw [longer, Nat.mul_eq_zero, or_iff_left power]

namespace Literal

/-- The number that a decimal literal denotes. -/
def denoted? (text : List Char) : Option ℚ :=
  (decimal? text).map fun literal => literal.1 * 10 ^ literal.2

/-- The numeral of a number consists of digits. -/
theorem isDigits_toDigits (number : Nat) : IsDigits (Nat.toDigits 10 number) :=
  fun _ member => Nat.isDigit_of_mem_toDigits (by decide) (by decide) member

/-- Zeros are digits. -/
theorem isDigits_replicate_zero (count : Nat) : IsDigits (List.replicate count '0') := by
  intro c member
  rw [List.eq_of_mem_replicate member]
  rfl

/-- Digits are digits without the zeros at their end. -/
theorem IsDigits.trimZeros {digits : List Char} (each : IsDigits digits) :
    IsDigits (trimZeros digits) := by
  obtain ⟨⟨count, same⟩, _⟩ := exists_trimZeros digits
  intro c member
  apply each
  rw [same]
  exact List.mem_append_left _ member

/-- The mark of an exponent is read as the exponent. -/
theorem exponent?_exponentMark (exponent : Int) :
    exponent? (exponentMark exponent) = some exponent := by
  have each : IsDigits (paddedDigits 10 2 exponent.natAbs) := by
    rw [IsDigits, paddedDigits, List.forall_mem_append]
    exact ⟨isDigits_replicate_zero _, isDigits_toDigits _⟩
  have number : numberOf 10 (paddedDigits 10 2 exponent.natAbs) = exponent.natAbs := by
    rw [paddedDigits, numberOf_append, numberOf_replicate_zero,
      numberOf_toDigits (by decide) (by decide), Nat.zero_mul, Nat.zero_add]
  have padded : (paddedDigits 10 2 exponent.natAbs).isEmpty = false := by
    simp [paddedDigits]
  have digits := List.all_eq_true.mpr each
  rw [exponentMark]
  split
  · next below =>
    have back : -(exponent.natAbs : Int) = exponent := by omega
    simp only [exponent?, beq_self_eq_true, Bool.true_or, padded, Bool.not_false, digits,
      Bool.and_self, if_true, number, back]
  · next above =>
    have back : (exponent.natAbs : Int) = exponent := by omega
    simp only [exponent?, beq_self_eq_true, Bool.true_or, padded, Bool.not_false, digits,
      Bool.and_self, if_true, number, back, Bool.false_eq_true, if_false]

/-- Without a mark the exponent is zero. -/
theorem exponent?_nil : exponent? [] = some 0 := rfl

/-- The text of an exponent is one. -/
theorem isExponent_of_exponent? {text : List Char} {exponent : Int}
    (read : exponent? text = some exponent) : IsExponent text := by
  rw [← isSome_exponent?_iff, read]
  rfl

/-- Digits with a point and an exponent are read as the number of the digits, and the exponent less
the places behind the point. -/
theorem decimal?_withFraction {whole fraction mark : List Char} (several : whole ≠ [])
    (digits : IsDigits whole) (places : IsDigits fraction) {exponent : Int}
    (read : exponent? mark = some exponent) :
    decimal? (withFraction whole fraction ++ mark) =
      some (numberOf 10 (whole ++ fraction), exponent - fraction.length) := by
  have back := (isExponent_of_exponent? read).head
  have ends : ∀ c ∈ mark.head?, c.isDigit = false := fun c first => (back c first).1
  have front : (whole ++ fraction).isEmpty = false := by simp [several]
  by_cases empty : fraction = []
  · obtain ⟨inFront, behind⟩ := takeWhile_append_of_head digits ends
    subst empty
    have whole_only : withFraction whole [] = whole := rfl
    simp only [whole_only, decimal?, inFront, behind]
    split
    · next rest _ => exact absurd rfl (back '.' rfl).2
    · rw [front, if_neg Bool.false_ne_true, read]
      rfl
  · have point : ∀ c ∈ ('.' :: (fraction ++ mark)).head?, c.isDigit = false := by
      intro c first
      obtain rfl := Option.some.inj first
      rfl
    obtain ⟨inFront, behind⟩ := takeWhile_append_of_head digits point
    obtain ⟨further, last⟩ := takeWhile_append_of_head places ends
    rw [withFraction, if_neg (by simpa using empty), List.append_assoc, List.cons_append]
    simp only [decimal?, inFront, behind, further, last]
    rw [front, if_neg Bool.false_ne_true, read]
    rfl

/-- The decimal literal denotes a number, and zero only if the digits do. -/
def Shows (text : List Char) (digits : Nat) : Prop :=
  ∃ value, denoted? text = some value ∧ (value = 0 ↔ digits = 0)

/-- Digits with a point and an exponent show a number if they denote zero when it is zero. -/
theorem shows_withFraction {whole fraction mark : List Char} (several : whole ≠ [])
    (each : IsDigits whole) (places : IsDigits fraction) {exponent : Int}
    (read : exponent? mark = some exponent) {digits : Nat}
    (zero : numberOf 10 (whole ++ fraction) = 0 ↔ digits = 0) :
    Shows (withFraction whole fraction ++ mark) digits := by
  have ten : (10 : ℚ) ^ (exponent - fraction.length) ≠ 0 := zpow_ne_zero _ (by norm_num)
  refine ⟨_, by rw [denoted?, decimal?_withFraction several each places read]; rfl, ?_⟩
  rw [mul_eq_zero, or_iff_left ten, Nat.cast_eq_zero, zero]

end Literal

namespace Scientific

variable (number : Scientific)

/-- The expanded form shows the significant digits, with all zeros at the end or without them. -/
theorem shows_expandedText :
    Literal.Shows (number.expandedText id) number.digits ∧
      Literal.Shows (number.expandedText trimZeros) number.digits := by
  have each := Literal.isDigits_toDigits number.digits
  have value := numberOf_toDigits (by decide : 1 < 10) (by decide) number.digits
  unfold expandedText
  split
  · next empty => exact absurd empty Nat.toDigits_ne_nil
  · next leading others digits =>
    rw [digits] at each value
    obtain ⟨first, rest⟩ := List.forall_mem_cons.mp each
    have one : Literal.IsDigits [leading] := List.forall_mem_singleton.mpr first
    have read := Literal.exponent?_exponentMark number.exponent
    have several : [leading] ≠ [] := List.cons_ne_nil _ _
    refine ⟨Literal.shows_withFraction several one rest read ?_,
      Literal.shows_withFraction several one (Literal.IsDigits.trimZeros rest) read ?_⟩
    · rw [List.singleton_append, value]
    · rw [numberOf_append_trimZeros, List.singleton_append, value]

/-- The positional form shows the significant digits. -/
theorem shows_positionalText : Literal.Shows number.positionalText number.digits := by
  have each := Literal.isDigits_toDigits number.digits
  have value := numberOf_toDigits (by decide : 1 < 10) (by decide) number.digits
  have read := Literal.exponent?_nil
  rw [← List.append_nil number.positionalText, positionalText]
  dsimp only
  split
  · have zero : Literal.IsDigits ['0'] := Literal.isDigits_replicate_zero 1
    have places : Literal.IsDigits
        (List.replicate (number.exponent.natAbs - 1) '0' ++ Nat.toDigits 10 number.digits) :=
      List.forall_mem_append.mpr ⟨Literal.isDigits_replicate_zero _, each⟩
    apply Literal.shows_withFraction (List.cons_ne_nil _ _) zero places.trimZeros read
    have zeros : ['0'] ++ List.replicate (number.exponent.natAbs - 1) '0' =
        List.replicate (number.exponent.natAbs - 1 + 1) '0' := List.replicate_succ.symm
    rw [numberOf_append_trimZeros, ← List.append_assoc, zeros, numberOf_append,
      numberOf_replicate_zero, value, Nat.zero_mul, Nat.zero_add]
  · obtain ⟨inFront, behind⟩ : Literal.IsDigits
          ((Nat.toDigits 10 number.digits).take (number.exponent.toNat + 1)) ∧
        Literal.IsDigits ((Nat.toDigits 10 number.digits).drop (number.exponent.toNat + 1)) := by
      rwa [← List.take_append_drop (number.exponent.toNat + 1) (Nat.toDigits 10 number.digits),
        Literal.IsDigits, List.forall_mem_append] at each
    have several : (Nat.toDigits 10 number.digits).take (number.exponent.toNat + 1) ≠ [] := by
      simp [Nat.toDigits_ne_nil]
    apply Literal.shows_withFraction several inFront behind.trimZeros read
    rw [numberOf_append_trimZeros, List.take_append_drop, value]

end Scientific

/-- The digits of a zero show it. -/
theorem Literal.shows_zero (places : Nat) {mark : List Char} (read : exponent? mark = some 0) :
    Shows (withFraction ['0'] (List.replicate places '0') ++ mark) 0 := by
  have zero : IsDigits ['0'] := isDigits_replicate_zero 1
  apply shows_withFraction (List.cons_ne_nil _ _) zero (isDigits_replicate_zero places) read
  rw [List.singleton_append, ← List.replicate_succ, numberOf_replicate_zero]

/-- What shows a positive number shows any other one. -/
theorem Literal.Shows.of_pos {text : List Char} {digits num : Nat} (shows : Shows text digits)
    (nonzero : 0 < digits) (positive : 0 < num) : Shows text num := by
  obtain ⟨value, read, zero⟩ := shows
  refine ⟨value, read, zero.trans ?_⟩
  omega

section

variable {num den : Nat} (alsoPositive : 0 < den)

include alsoPositive

/-- The general form of a quotient denotes a number, which is zero only if the quotient is. -/
theorem shows_generalDecimal {count : Nat} (several : 0 < count) :
    Literal.Shows (generalDecimal count num den) num := by
  unfold generalDecimal
  split
  · next zero =>
    subst zero
    exact Literal.shows_zero 0 Literal.exponent?_nil
  · next nonzero =>
    have positive := Nat.pos_of_ne_zero nonzero
    have digits := Scientific.digits_ofRatio_pos positive alsoPositive several
    unfold Scientific.generalText
    split
    · exact (Scientific.shows_positionalText _).of_pos digits positive
    · exact (Scientific.shows_expandedText _).2.of_pos digits positive

/-- The scientific form of a quotient denotes a number, which is zero only if the quotient is. -/
theorem shows_scientificDecimal (places : Nat) :
    Literal.Shows (scientificDecimal places num den) num := by
  unfold scientificDecimal
  split
  · next zero =>
    subst zero
    exact Literal.shows_zero places (Literal.exponent?_exponentMark 0)
  · next nonzero =>
    have positive := Nat.pos_of_ne_zero nonzero
    have digits := Scientific.digits_ofRatio_pos positive alsoPositive (Nat.succ_pos places)
    exact (Scientific.shows_expandedText _).1.of_pos digits positive

end

/-- The number that digits of a base behind its marker denote, with or without a point. -/
def Base.denoted? (base : Base) : List Char → Option ℚ
  | '0' :: letter :: digits =>
    let whole := digits.takeWhile base.isDigit
    if letter ≠ base.letter ∨ whole.isEmpty then none
    else
      match digits.dropWhile base.isDigit with
      | [] => some (numberOf base.size whole)
      | '.' :: fraction =>
        if fraction.all base.isDigit then
          some ((numberOf base.size (whole ++ fraction) : ℚ) / base.size ^ fraction.length)
        else none
      | _ => none
  | _ => none

/-- Digits of a base with a point denote their number, shifted by the places behind the point. -/
theorem Base.denoted?_withFraction (base : Base) {whole fraction : List Char}
    (several : whole ≠ []) (each : ∀ c ∈ whole ++ fraction, base.isDigit c = true) :
    base.denoted? ('0' :: base.letter :: withFraction whole fraction) =
      some ((numberOf base.size (whole ++ fraction) : ℚ) / base.size ^ fraction.length) := by
  rw [List.forall_mem_append] at each
  have known : ¬ (base.letter ≠ base.letter ∨ whole.isEmpty = true) := by simp [several]
  by_cases empty : fraction = []
  · have ends : ∀ c ∈ ([] : List Char).head?, base.isDigit c = false := nofun
    obtain ⟨inFront, behind⟩ := takeWhile_append_of_head each.1 ends
    rw [List.append_nil] at inFront behind
    subst empty
    have whole_only : withFraction whole [] = whole := rfl
    simp only [whole_only, denoted?, inFront, behind, if_neg known, List.append_nil,
      List.length_nil, pow_zero, div_one]
  · have point : ∀ c ∈ ('.' :: fraction).head?, base.isDigit c = false := by
      intro c first
      obtain rfl := Option.some.inj first
      rfl
    obtain ⟨inFront, behind⟩ := takeWhile_append_of_head each.1 point
    rw [withFraction, if_neg (by simpa using empty)]
    simp only [denoted?, inFront, behind, if_neg known, List.all_eq_true.mpr each.2, if_true]

/-- The number that the digits of a form denote. -/
def Radix.denoted? : Radix → List Char → Option ℚ
  | .decimal | .exponential => Literal.denoted?
  | .binary => Base.binary.denoted?
  | .octal => Base.octal.denoted?
  | .hex => Base.hex.denoted?

/-- The text without its sign. -/
def unsigned : List Char → List Char
  | '-' :: digits => digits
  | digits => digits

/-- Digits that denote a number do not begin with a sign. -/
theorem Radix.head?_ne_of_denoted? {radix : Radix} {digits : List Char} {value : ℚ}
    (read : radix.denoted? digits = some value) : digits.head? ≠ some '-' := by
  intro sign
  cases digits with
  | nil => contradiction
  | cons first rest =>
    obtain rfl := Option.some.inj sign
    cases radix <;> contradiction

namespace Format

/-- The form cuts off all digits of a double: it is that of a base, and the double is below the last
place. -/
def CutsOff (format : Format) (x : Binary64) : Prop :=
  ∃ base : Base, format.radix = base.radix ∧ |x.toRat| * base.size ^ format.precision.digits < 1

variable {x : Binary64}

/-- The form of a base cuts off what is below its last place. -/
theorem cutsOff_base_iff (base : Base) (precision : Precision) :
    CutsOff ⟨base.radix, precision⟩ x ↔ |x.toRat| * base.size ^ precision.digits < 1 := by
  constructor
  · rintro ⟨same, radix, small⟩
    obtain rfl : base = same := by cases base <;> cases same <;> trivial
    exact small
  · exact fun small => ⟨base, rfl, small⟩

/-- The digits in a base denote a number. It is zero if the form cuts off all digits. -/
theorem denoted?_magnitude_base (base : Base) (precision : Precision)
    (finite : x.isFinite = true) :
    ∃ value, base.denoted? (magnitude ⟨base.radix, precision⟩ x finite) = some value ∧
      (value = 0 ↔ CutsOff ⟨base.radix, precision⟩ x) := by
  have alsoFinite : x.abs.isFinite = true := finite
  obtain ⟨whole, fraction, digits, truncates⟩ :=
    base.truncates_expansion precision.digits alsoFinite rfl
  have magnitude_eq : magnitude ⟨base.radix, precision⟩ x finite =
      '0' :: base.letter :: withFraction whole fraction := by
    rw [← digits]
    cases base <;> rfl
  have each : ∀ c ∈ whole ++ fraction, base.isDigit c = true := by
    intro c member
    obtain ⟨digit, small, rfl⟩ := truncates.each c member
    simp [Base.isDigit, digitValue?_digitChar (Nat.lt_of_lt_of_le small base.size_le), small]
  have several : whole ≠ [] := by
    rw [truncates.numeral]
    exact Nat.toDigits_ne_nil
  have power : (base.size : ℚ) ^ precision.digits ≠ 0 := by
    apply pow_ne_zero
    exact_mod_cast Nat.ne_of_gt (Nat.lt_trans Nat.one_pos base.one_lt_size)
  refine ⟨_, by rw [magnitude_eq, base.denoted?_withFraction several each], ?_⟩
  rw [truncates.denotes, div_eq_zero_iff, or_iff_left power, Nat.cast_eq_zero, Nat.floor_eq_zero,
    cutsOff_base_iff, x.abs_toRat]
  rfl

/-- The digits of a form denote a number. It is zero if the double is, or if the form cuts off all
its digits. -/
theorem denoted?_magnitude (format : Format) (finite : x.isFinite = true) :
    ∃ value, format.radix.denoted? (format.magnitude x finite) = some value ∧
      (value = 0 ↔ x.toRat = 0 ∨ format.CutsOff x) := by
  obtain ⟨radix, precision⟩ := format
  have decimal {radix : Radix} (other : ∀ base : Base, radix ≠ base.radix) {text : List Char}
      (shows : Literal.Shows text x.units) : ∃ value, Literal.denoted? text = some value ∧
        (value = 0 ↔ x.toRat = 0 ∨ CutsOff ⟨radix, precision⟩ x) := by
    obtain ⟨value, read, zero⟩ := shows
    have one : (Binary64.one : ℚ) ≠ 0 := by exact_mod_cast Nat.ne_of_gt Binary64.one_pos
    have units : x.units = 0 ↔ x.toRat = 0 := by
      rw [← abs_eq_zero, x.abs_toRat, div_eq_zero_iff, or_iff_left one, Nat.cast_eq_zero]
    have kept : ¬ CutsOff ⟨radix, precision⟩ x := fun ⟨base, same, _⟩ => other base same
    exact ⟨value, read, by rw [zero, units, or_iff_left kept]⟩
  have inBase (base : Base) : ∃ value,
      base.denoted? (magnitude ⟨base.radix, precision⟩ x finite) = some value ∧
        (value = 0 ↔ x.toRat = 0 ∨ CutsOff ⟨base.radix, precision⟩ x) := by
    obtain ⟨value, read, zero⟩ := denoted?_magnitude_base base precision finite
    have small : x.toRat = 0 → CutsOff ⟨base.radix, precision⟩ x := by
      intro zero
      simp [cutsOff_base_iff, zero]
    exact ⟨value, read, by rw [zero, or_iff_right_of_imp small]⟩
  cases radix with
  | decimal =>
    have shows : Literal.Shows (magnitude ⟨.decimal, precision⟩ x finite) x.units :=
      shows_generalDecimal Binary64.one_pos precision.positive
    exact decimal (fun base => by cases base <;> nofun) shows
  | exponential =>
    have shows : Literal.Shows (magnitude ⟨.exponential, precision⟩ x finite) x.units :=
      shows_scientificDecimal Binary64.one_pos precision.digits
    exact decimal (fun base => by cases base <;> nofun) shows
  | binary => exact inBase .binary
  | octal => exact inBase .octal
  | hex => exact inBase .hex

/-- The text of a finite double is a sign if it is below zero, and digits that denote a number. This
number is zero only if the double is, or if the form is that of a base and the double is below the
last place. So a sign in front of a zero is written in no decimal form, and in the form of a base
exactly for a double below zero that is cut off to zero. -/
theorem float_sign_and_zero (format : Format) (finite : x.isFinite = true) :
    ∃ value, format.radix.denoted? (unsigned (format.float x).toList) = some value ∧
      ((format.float x).toList.head? = some '-' ↔ x.toRat < 0) ∧
      (value = 0 ↔ x.toRat = 0 ∨ format.CutsOff x) := by
  obtain ⟨value, read, zero⟩ := format.denoted?_magnitude finite
  have plain := Radix.head?_ne_of_denoted? read
  have text : (format.float x).toList =
      if x.toRat < 0 then '-' :: format.magnitude x finite else format.magnitude x finite := by
    rw [float_of_isFinite _ finite, String.toList_ofList, Format.finite]
    simp only [Binary64.toRat_neg_iff]
  have bare : unsigned (format.magnitude x finite) = format.magnitude x finite := by
    unfold unsigned
    split
    · next shape => exact absurd (congrArg List.head? shape) plain
    · rfl
  refine ⟨value, ?_, ?_, zero⟩
  · rw [text]
    split
    · exact read
    · rwa [bare]
  · rw [text]
    split
    · next below => exact iff_of_true rfl below
    · next above => exact iff_of_false plain above

/-- A double below zero that is written with the digits of zero and a sign. -/
theorem float_sign_and_zero_tiny :
    (-1e-30 : Binary64).isFinite = true ∧
      Format.float ⟨.hex, { digits := 1 }⟩ (-1e-30) = "-0x0" ∧
      ∃ value, Radix.hex.denoted? (unsigned "-0x0".toList) = some value ∧
        ("-0x0".toList.head? = some '-' ↔ (-1e-30 : Binary64).toRat < 0) ∧
        (value = 0 ↔ (-1e-30 : Binary64).toRat = 0 ∨
          CutsOff ⟨.hex, { digits := 1 }⟩ (-1e-30)) := by
  have finite : (-1e-30 : Binary64).isFinite = true := by decide +kernel
  have text : Format.float ⟨.hex, { digits := 1 }⟩ (-1e-30) = "-0x0" := by decide +kernel
  have spec := float_sign_and_zero ⟨.hex, { digits := 1 }⟩ finite
  rw [text] at spec
  exact ⟨finite, text, spec⟩

/-- Not every sign stands in front of digits that denote more than zero. -/
theorem not_every_sign_of_nonzero :
    ¬ ∀ (format : Format) (x : Binary64), x.isFinite = true →
      (format.float x).toList.head? = some '-' →
        format.radix.denoted? (unsigned (format.float x).toList) ≠ some 0 := by
  intro every
  have finite : (-1e-30 : Binary64).isFinite = true := by decide +kernel
  have text : Format.float ⟨.hex, { digits := 1 }⟩ (-1e-30) = "-0x0" := by decide +kernel
  have nonzero := every ⟨.hex, { digits := 1 }⟩ (-1e-30) finite
  rw [text] at nonzero
  exact nonzero rfl (by decide +kernel)

end Format

end Reckoner
