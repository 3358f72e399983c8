import Mathlib.Data.List.Induction
import Reckoner.Binary64.Significand
import Reckoner.Proofs.LiteralGrammar
import Reckoner.Proofs.Numerals
/-!
# Rounding at every digit

The digits of a literal in the base two, eight or sixteen are taken up one at a time, and every step
rounds. As long as the digits taken up denote a number below `2 ^ 53`, nothing is rounded. The digit
with which they reach it is rounded to 53 significant bits, and from then on every digit is lost: it
is less than half a unit of the last place. So the literal denotes its number, rounded once, unless
the digits up to that one lie in the middle between two numbers with 53 bits. There the tie goes to
the even one, though a digit that follows may put the number above the middle.
-/

namespace Reckoner

namespace Base

variable (base : Base)

/-- A digit behind a double that is a number of at least `2 ^ 53` is lost. -/
theorem nearest_mul_add_of_le {number digit : Nat} (exact : Binary64.IsExact number)
    (large : 2 ^ 53 ≤ number) (shifted : Binary64.IsExact (number * base.size))
    (small : digit < base.size) :
    Binary64.nearest number 1 * base.double + Binary64.ofInt digit =
      Binary64.nearest (number * base.size) 1 := by
  obtain ⟨bits, power⟩ := base.exists_size_eq
  have lost : rounded (number * base.size + digit) = number * base.size := by
    rw [power] at small ⊢
    exact exact.fits.rounded_mul_add large small
  rw [base.nearest_mul_add exact shifted small, ← Binary64.nearest_rounded, lost]

/-- The digits denote a number that reaches `2 ^ 53`, and without the last one they do not. -/
def FillsSignificand (digits : List Char) : Prop :=
  2 ^ 53 ≤ numberOf base.size digits ∧ numberOf base.size digits / base.size < 2 ^ 53

/-- Digits that denote a number of at least `2 ^ 53` reach it with one of them. -/
theorem exists_fillsSignificand {digits : List Char}
    (each : ∀ c ∈ digits, base.isDigit c = true) (large : 2 ^ 53 ≤ numberOf base.size digits) :
    ∃ front back, digits = front ++ back ∧ base.FillsSignificand front := by
  induction digits using List.reverseRecOn with
  | nil => cases base <;> exact absurd large (by decide)
  | append_singleton digits c ih =>
    obtain ⟨others, last⟩ := List.forall_mem_append.mp each
    rcases Nat.lt_or_ge (numberOf base.size digits) (2 ^ 53) with small | enough
    · have digit := base.digit_lt (last c (List.mem_singleton_self c))
      refine ⟨digits ++ [c], [], (List.append_nil _).symm, large, ?_⟩
      rw [numberOf_concat, Nat.mul_comm, Nat.mul_add_div (by omega), Nat.div_eq_of_lt digit]
      exact small
    · obtain ⟨front, back, rfl, fills⟩ := ih others enough
      exact ⟨front, back ++ [c], List.append_assoc .., fills⟩

/-- A shift by digits of the base is one by bits. -/
theorem exists_pow_eq (count : Nat) : ∃ bits, base.size ^ count = 2 ^ bits := by
  obtain ⟨bits, power⟩ := base.exists_size_eq
  exact ⟨bits * count, by rw [power, Nat.pow_mul]; rfl⟩

/-- Digits of a number below `2 ^ 53` denote it: no step rounds. -/
theorem valueOf_of_lt {digits : List Char} (each : ∀ c ∈ digits, base.isDigit c = true)
    (small : numberOf base.size digits < 2 ^ 53) :
    base.valueOf digits = Binary64.nearest (numberOf base.size digits) 1 := by
  induction digits using List.reverseRecOn with
  | nil => rfl
  | append_singleton digits c ih =>
    obtain ⟨others, last⟩ := List.forall_mem_append.mp each
    have digit := base.digit_lt (last c (List.mem_singleton_self c))
    rw [numberOf_concat] at small ⊢
    have fewer : numberOf base.size digits ≤ numberOf base.size digits * base.size :=
      Nat.le_mul_of_pos_right _ (by omega)
    rw [valueOf_concat, ih others (by omega),
      base.nearest_mul_add (.of_lt (by omega)) (.of_lt (by omega)) digit]

/-- Digits that reach `2 ^ 53` with the last of them are rounded with it. -/
theorem valueOf_of_fillsSignificand {digits : List Char}
    (each : ∀ c ∈ digits, base.isDigit c = true) (fills : base.FillsSignificand digits) :
    base.valueOf digits = Binary64.nearest (numberOf base.size digits) 1 := by
  obtain ⟨large, small⟩ := fills
  cases digits using List.reverseRecOn with
  | nil => cases base <;> exact absurd large (by decide)
  | append_singleton digits c =>
    obtain ⟨others, last⟩ := List.forall_mem_append.mp each
    have digit := base.digit_lt (last c (List.mem_singleton_self c))
    have size := base.size_le
    obtain ⟨bits, power⟩ := base.exists_size_eq
    rw [numberOf_concat, Nat.mul_comm, Nat.mul_add_div (by omega), Nat.div_eq_of_lt digit] at small
    have exact : Binary64.IsExact (numberOf base.size digits) := .of_lt small
    have shifted : Binary64.IsExact (numberOf base.size digits * base.size) := by
      have most : numberOf base.size digits * base.size ≤ 2 ^ 53 * 16 :=
        Nat.mul_le_mul (Nat.le_of_lt small) size
      have fits := exact.fits.mul_two_pow bits
      rw [← power] at fits
      exact .of_fits fits (by omega)
    rw [numberOf_concat, valueOf_concat, base.valueOf_of_lt others small,
      base.nearest_mul_add exact shifted digit]

/-- A rounded number that is shifted by digits is a double if it was below `2 ^ 1023`. -/
theorem isExact_rounded_mul {number : Nat} (large : 2 ^ 53 ≤ number) {count : Nat}
    (bounded : number * base.size ^ count < 2 ^ 1023) :
    Binary64.IsExact (rounded number * base.size ^ count) := by
  obtain ⟨bits, power⟩ := base.exists_pow_eq count
  rw [power, ← rounded_mul_two_pow large]
  rw [power] at bounded
  exact Binary64.isExact_rounded bounded

/-- Digits behind others shift their number. -/
theorem numberOf_mul_le (front back : List Char) :
    numberOf base.size front * base.size ^ back.length ≤ numberOf base.size (front ++ back) := by
  rw [numberOf_append]
  exact Nat.le_add_right ..

/-- The digits behind those that reach `2 ^ 53` are lost. They only shift the rounded number. -/
theorem valueOf_append {front back : List Char} (fills : base.FillsSignificand front)
    (each : ∀ c ∈ front ++ back, base.isDigit c = true)
    (bounded : numberOf base.size (front ++ back) < 2 ^ 1023) :
    base.valueOf (front ++ back) =
      Binary64.nearest (rounded (numberOf base.size front) * base.size ^ back.length) 1 := by
  induction back using List.reverseRecOn with
  | nil =>
    rw [List.append_nil] at each ⊢
    rw [base.valueOf_of_fillsSignificand each fills, List.length_nil, Nat.pow_zero, Nat.mul_one,
      Binary64.nearest_rounded]
  | append_singleton back c ih =>
    rw [← List.append_assoc] at each bounded ⊢
    obtain ⟨others, last⟩ := List.forall_mem_append.mp each
    have digit := base.digit_lt (last c (List.mem_singleton_self c))
    have shift := base.numberOf_mul_le front back
    have most : numberOf base.size (front ++ back) * base.size ≤
        numberOf base.size (front ++ back ++ [c]) := by
      rw [numberOf_concat]
      exact Nat.le_add_right ..
    have fewer : numberOf base.size (front ++ back) ≤
        numberOf base.size (front ++ back) * base.size :=
      Nat.le_mul_of_pos_right _ (by omega)
    have farther : numberOf base.size front * base.size ^ (back.length + 1) ≤
        numberOf base.size (front ++ back) * base.size := by
      rw [Nat.pow_succ, ← Nat.mul_assoc]
      exact Nat.mul_le_mul_right _ shift
    have exact := base.isExact_rounded_mul fills.1 (Nat.lt_of_le_of_lt shift (by omega))
    have shifted := base.isExact_rounded_mul fills.1
      (Nat.lt_of_le_of_lt farther (Nat.lt_of_le_of_lt most bounded))
    rw [Nat.pow_succ, ← Nat.mul_assoc] at shifted
    have enough : 2 ^ 53 ≤ rounded (numberOf base.size front) * base.size ^ back.length :=
      Nat.le_trans (le_rounded fills.1) (Nat.le_mul_of_pos_right _ (Nat.pow_pos (by omega)))
    rw [valueOf_concat, ih others (by omega), base.nearest_mul_add_of_le exact enough shifted digit,
      List.length_append, List.length_singleton, Nat.pow_succ, Nat.mul_assoc]

/-- Digits denote the double nearest to their number unless those that reach `2 ^ 53` are a tie
above the even number and the digits behind them are not all zero. -/
theorem valueOf_append_eq_nearest_iff {front back : List Char}
    (fills : base.FillsSignificand front) (each : ∀ c ∈ front ++ back, base.isDigit c = true)
    (bounded : numberOf base.size (front ++ back) < 2 ^ 1023) :
    base.valueOf (front ++ back) = Binary64.nearest (numberOf base.size (front ++ back)) 1 ↔
      ¬ (IsLowerTie (numberOf base.size front) ∧ numberOf base.size back ≠ 0) := by
  have behind := base.numberOf_lt fun c member => each c (List.mem_append_right front member)
  have exact := base.isExact_rounded_mul fills.1
    (Nat.lt_of_le_of_lt (base.numberOf_mul_le front back) bounded)
  obtain ⟨bits, power⟩ := base.exists_pow_eq back.length
  rw [base.valueOf_append fills each bounded,
    ← Binary64.nearest_rounded (numberOf base.size (front ++ back)),
    exact.nearest_inj (Binary64.isExact_rounded bounded), numberOf_append, eq_comm, power,
    rounded_mul_add_eq_iff fills.1 (Nat.lt_of_lt_of_eq behind power)]

/-- The digits that reach `2 ^ 53` are a tie above the even number, and the digits behind them,
which put the number above the middle, are lost. -/
def DropsTie (digits : List Char) : Prop :=
  ∃ front back, digits = front ++ back ∧ base.FillsSignificand front ∧
    IsLowerTie (numberOf base.size front) ∧ numberOf base.size back ≠ 0

section

variable {digits : List Char} (each : ∀ c ∈ digits, base.isDigit c = true)
  (bounded : numberOf base.size digits < 2 ^ 1023)

include each bounded

/-- Digits denote the double nearest to their number unless they drop a tie. -/
theorem valueOf_eq_nearest_iff :
    base.valueOf digits = Binary64.nearest (numberOf base.size digits) 1 ↔
      ¬ base.DropsTie digits := by
  constructor
  · rintro nearest ⟨front, back, rfl, fills, tie⟩
    exact (base.valueOf_append_eq_nearest_iff fills each bounded).mp nearest tie
  · intro kept
    rcases Nat.lt_or_ge (numberOf base.size digits) (2 ^ 53) with small | large
    · exact base.valueOf_of_lt each small
    · obtain ⟨front, back, rfl, fills⟩ := base.exists_fillsSignificand each large
      exact (base.valueOf_append_eq_nearest_iff fills each bounded).mpr fun tie =>
        kept ⟨front, back, rfl, fills, tie⟩

/-- Digits that drop a tie denote the number with 53 significant bits that is next below theirs,
though the one above is nearer. -/
theorem valueOf_of_dropsTie (drops : base.DropsTie digits) :
    base.valueOf digits =
      Binary64.nearest (numberOf base.size digits / lastPlace (numberOf base.size digits) *
        lastPlace (numberOf base.size digits)) 1 := by
  obtain ⟨front, back, rfl, fills, tie, _⟩ := drops
  have behind := base.numberOf_lt fun c member => each c (List.mem_append_right front member)
  obtain ⟨bits, power⟩ := base.exists_pow_eq back.length
  have positive : 0 < base.size ^ back.length := by omega
  have below : (numberOf base.size front * base.size ^ back.length + numberOf base.size back) /
      base.size ^ back.length = numberOf base.size front := by
    rw [Nat.mul_comm, Nat.mul_add_div positive, Nat.div_eq_of_lt behind, Nat.add_zero]
  have place : lastPlace (numberOf base.size (front ++ back)) =
      lastPlace (numberOf base.size front) * base.size ^ back.length := by
    rw [numberOf_append, power, lastPlace_mul_add fills.1 (Nat.lt_of_lt_of_eq behind power)]
  have significand : numberOf base.size (front ++ back) /
      (lastPlace (numberOf base.size front) * base.size ^ back.length) =
        numberOf base.size front / lastPlace (numberOf base.size front) := by
    rw [numberOf_append, Nat.mul_comm (lastPlace _), ← Nat.div_div_eq_div_mul, below]
  rw [base.valueOf_append fills each bounded, place, significand, tie.rounded_eq, Nat.mul_assoc]

end

/-- Digits behind the marker of their base are a literal that denotes them. -/
theorem value_marked {digits : List Char} (nonempty : digits ≠ []) :
    Literal.value ('0' :: base.letter :: digits) = base.valueOf digits := by
  obtain ⟨first, others, rfl⟩ := List.exists_cons_of_ne_nil nonempty
  rw [Literal.value, Literal.marked?, base.ofLetter?_letter]
  rfl

end Base

/-- The decimal literal of a number denotes the double nearest to it. -/
theorem Literal.value_toDigits (number : Nat) :
    Literal.value (Nat.toDigits 10 number) = Binary64.nearest number 1 := by
  have digit : ∀ c ∈ Nat.toDigits 10 number, c.isDigit = true := fun c member =>
    Nat.isDigit_of_mem_toDigits (by decide) (by decide) member
  have unmarked : marked? (Nat.toDigits 10 number) = none := by
    cases found : marked? (Nat.toDigits 10 number) with
    | none => rfl
    | some pair =>
      obtain ⟨base, digits⟩ := pair
      obtain ⟨_, same⟩ := marked?_eq_some found
      rw [same] at digit
      have marker := digit base.letter (List.mem_cons_of_mem _ (List.mem_cons_self))
      cases base <;> exact absurd marker (by decide)
  have whole : decimal? (Nat.toDigits 10 number) = some (number, 0) := by
    have ends : ∀ c ∈ ([] : List Char).head?, c.isDigit = false := nofun
    have alone := takeWhile_append_of_head digit ends
    rw [List.append_nil] at alone
    simp [decimal?, alone, exponent?, numberOf_toDigits]
  rw [value, unmarked]
  simp only [whole]
  unfold decimalValue
  split
  · next zero =>
    rw [zero]
    rfl
  · simp

namespace Base

/-- A literal in the base two, eight or sixteen whose number is below `2 ^ 1023` denotes its digits,
taken up one at a time. It denotes the double nearest to the number, which is the number rounded to
53 significant bits and the value of the decimal literal, unless its digits drop a tie. Then it
denotes the number with 53 significant bits that is next below. -/
theorem value_eq_value_decimal_iff (base : Base) {digits : List Char} (nonempty : digits ≠ [])
    (each : ∀ c ∈ digits, base.isDigit c = true)
    (bounded : numberOf base.size digits < 2 ^ 1023) :
    Literal.value ('0' :: base.letter :: digits) = base.valueOf digits ∧
      Literal.value (Nat.toDigits 10 (numberOf base.size digits)) =
        Binary64.nearest (numberOf base.size digits) 1 ∧
      (Binary64.nearest (numberOf base.size digits) 1).IsNatural ∧
      (Binary64.nearest (numberOf base.size digits) 1).ones =
        rounded (numberOf base.size digits) ∧
      (base.valueOf digits = Binary64.nearest (numberOf base.size digits) 1 ↔
        ¬ base.DropsTie digits) ∧
      (base.DropsTie digits → base.valueOf digits =
        Binary64.nearest (numberOf base.size digits / lastPlace (numberOf base.size digits) *
          lastPlace (numberOf base.size digits)) 1) := by
  have exact := (Binary64.isExact_rounded bounded).isNatural
  rw [Binary64.nearest_rounded] at exact
  exact ⟨base.value_marked nonempty, Literal.value_toDigits _, exact.1, exact.2,
    base.valueOf_eq_nearest_iff each bounded, base.valueOf_of_dropsTie each bounded⟩

/-- The digits of `2 ^ 60 + 129` in base sixteen. The doubles next to the number are `2 ^ 60` and
`2 ^ 60 + 256`, and all digits but the last are in the middle between the two. -/
def tieDigits : List Char := "1000000000000081".toList

/-- The digits of base sixteen denote the double below, and the decimal literal that above. -/
theorem value_tieDigits :
    tieDigits ≠ [] ∧ (∀ c ∈ tieDigits, hex.isDigit c = true) ∧
      numberOf hex.size tieDigits < 2 ^ 1023 ∧
      Literal.value ('0' :: hex.letter :: tieDigits) = hex.valueOf tieDigits ∧
      Literal.value (Nat.toDigits 10 (numberOf hex.size tieDigits)) =
        Binary64.nearest (numberOf hex.size tieDigits) 1 ∧
      (Binary64.nearest (2 ^ 60 + 129) 1).ones = 2 ^ 60 + 256 ∧
      hex.DropsTie tieDigits ∧ hex.valueOf tieDigits = Binary64.nearest (2 ^ 60) 1 := by
  have nonempty : tieDigits ≠ [] := by decide
  have each : ∀ c ∈ tieDigits, hex.isDigit c = true := List.all_eq_true.mp rfl
  have number : numberOf hex.size tieDigits = 2 ^ 60 + 129 := by decide +kernel
  have bounded : numberOf hex.size tieDigits < 2 ^ 1023 := by decide +kernel
  obtain ⟨value, decimal, _, above, nearest, below⟩ :=
    hex.value_eq_value_decimal_iff nonempty each bounded
  have drops : hex.DropsTie tieDigits := by
    by_contra kept
    exact absurd (nearest.mpr kept) (by decide +kernel)
  have place : rounded (2 ^ 60 + 129) = 2 ^ 60 + 256 ∧
      (2 ^ 60 + 129) / lastPlace (2 ^ 60 + 129) * lastPlace (2 ^ 60 + 129) = 2 ^ 60 := by
    decide +kernel
  have next := below drops
  rw [number, place.1] at above
  rw [number, place.2] at next
  exact ⟨nonempty, each, bounded, value, decimal, above, drops, next⟩

/-- Not every literal denotes the double nearest to its number. -/
theorem not_every_value_nearest :
    ¬ ∀ (base : Base) (digits : List Char), digits ≠ [] →
        (∀ c ∈ digits, base.isDigit c = true) → numberOf base.size digits < 2 ^ 1023 →
        base.valueOf digits = Binary64.nearest (numberOf base.size digits) 1 ∧
          Literal.value ('0' :: base.letter :: digits) =
            Literal.value (Nat.toDigits 10 (numberOf base.size digits)) := by
  intro every
  obtain ⟨nearest, _⟩ :=
    every hex tieDigits (by decide) (List.all_eq_true.mp rfl) (by decide +kernel)
  exact absurd nearest (by decide +kernel)

end Base

end Reckoner
