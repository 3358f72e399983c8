import Reckoner.Numeral.Literal
/-!
# The grammar of literals

A literal is decimal, with an optional fraction and an optional exponent, or it has the marker of a
base in front of digits of this base. A text is valid exactly if it is such a literal. A point
without digits is none, but it is valid with the zero that is put in front of a point.
-/

namespace Reckoner

/-- A text is split where its characters have a property and the next one has not. -/
theorem takeWhile_append_of_head {property : Char → Bool} {front back : List Char}
    (each : ∀ c ∈ front, property c = true) (ends : ∀ c ∈ back.head?, property c = false) :
    (front ++ back).takeWhile property = front ∧ (front ++ back).dropWhile property = back := by
  have last : back.takeWhile property = [] ∧ back.dropWhile property = back := by
    cases back with
    | nil => exact ⟨rfl, rfl⟩
    | cons c more =>
      have other := ends c rfl
      rw [List.takeWhile_cons, List.dropWhile_cons, other]
      exact ⟨rfl, rfl⟩
  rw [List.takeWhile_append_of_pos each, List.dropWhile_append_of_pos each, last.1, last.2,
    List.append_nil]
  exact ⟨rfl, rfl⟩

namespace Literal

/-- The text consists of decimal digits. -/
def IsDigits (text : List Char) : Prop := ∀ c ∈ text, c.isDigit = true

/-- The part of a decimal literal in front of its exponent: digits with or without a point, and at
least one of them. -/
inductive IsMantissa : List Char → Prop
  /-- Digits without a point. -/
  | whole {digits : List Char} (nonempty : digits ≠ []) (each : IsDigits digits) : IsMantissa digits
  /-- Digits in front of the point, and perhaps behind it. -/
  | point {digits places : List Char} (nonempty : digits ≠ []) (each : IsDigits digits)
    (also : IsDigits places) : IsMantissa (digits ++ '.' :: places)
  /-- Digits only behind the point. -/
  | fraction {places : List Char} (nonempty : places ≠ []) (each : IsDigits places) :
    IsMantissa ('.' :: places)

/-- The exponent of a decimal literal, if it has one. -/
inductive IsExponent : List Char → Prop
  /-- There is none. -/
  | absent : IsExponent []
  /-- A letter, perhaps a sign, and digits. -/
  | present {mark : Char} {sign digits : List Char} (letter : mark = 'e' ∨ mark = 'E')
    (signed : sign = [] ∨ sign = ['+'] ∨ sign = ['-']) (nonempty : digits ≠ [])
    (each : IsDigits digits) : IsExponent (mark :: (sign ++ digits))

/-- A literal without its imaginary unit. -/
inductive IsBody : List Char → Prop
  /-- A decimal literal. -/
  | decimal {mantissa exponent : List Char} (front : IsMantissa mantissa)
    (back : IsExponent exponent) : IsBody (mantissa ++ exponent)
  /-- The marker of a base in front of digits of the base. -/
  | marked (base : Base) {digits : List Char} (nonempty : digits ≠ [])
    (each : ∀ c ∈ digits, base.isDigit c = true) : IsBody ('0' :: base.letter :: digits)

/-- A point without digits, and perhaps an exponent. -/
def IsBarePoint (text : List Char) : Prop :=
  ∃ exponent, IsExponent exponent ∧ text = '.' :: exponent

/-- Exponents are what is read as one. -/
theorem isSome_exponent?_iff (text : List Char) :
    (exponent? text).isSome = true ↔ IsExponent text := by
  have taken {mark : Char} {digits : List Char} {value : Int} :
      (if ((mark == 'e' || mark == 'E') && !digits.isEmpty && digits.all Char.isDigit) = true
        then some value else none).isSome = true ↔
      (mark = 'e' ∨ mark = 'E') ∧ digits ≠ [] ∧ IsDigits digits := by
    simp [IsDigits, and_assoc]
  constructor
  · intro known
    cases text with
    | nil => exact .absent
    | cons mark rest =>
      simp only [exponent?.eq_def] at known
      split at known
      · obtain ⟨letter, nonempty, each⟩ := taken.mp known
        exact .present letter (.inr (.inl rfl)) nonempty each
      · obtain ⟨letter, nonempty, each⟩ := taken.mp known
        exact .present letter (.inr (.inr rfl)) nonempty each
      · obtain ⟨letter, nonempty, each⟩ := taken.mp known
        exact .present letter (.inl rfl) nonempty each
  · intro back
    cases back with
    | absent => rfl
    | @present mark sign digits letter signed nonempty each =>
      rcases signed with rfl | rfl | rfl
      · simp only [exponent?.eq_def, List.nil_append]
        split
        · exact absurd (each '+' List.mem_cons_self) (by decide)
        · exact absurd (each '-' List.mem_cons_self) (by decide)
        · exact taken.mpr ⟨letter, nonempty, each⟩
      · exact taken.mpr ⟨letter, nonempty, each⟩
      · exact taken.mpr ⟨letter, nonempty, each⟩

/-- The first character of an exponent is neither a digit nor the point. -/
theorem IsExponent.head {exponent : List Char} (back : IsExponent exponent) :
    ∀ c ∈ exponent.head?, c.isDigit = false ∧ c ≠ '.' := by
  cases back with
  | absent => exact nofun
  | present letter =>
    intro c first
    obtain rfl := Option.some.inj first
    rcases letter with rfl | rfl <;> decide

/-- The digits at the front of a text are digits. -/
theorem isDigits_takeWhile (text : List Char) : IsDigits (text.takeWhile Char.isDigit) :=
  List.all_eq_true.mp List.all_takeWhile

/-- A mantissa with a digit is read, if what stands behind it is an exponent. -/
theorem isSome_scaled_iff {digits back : List Char} {value : Int → Nat × Int} :
    (if digits.isEmpty = true then none else (exponent? back).map value).isSome = true ↔
      digits ≠ [] ∧ IsExponent back := by
  rw [← isSome_exponent?_iff]
  cases digits <;> simp

/-- What is read as a decimal literal is one. -/
theorem exists_of_isSome_decimal? {text : List Char} (known : (decimal? text).isSome = true) :
    ∃ mantissa exponent, text = mantissa ++ exponent ∧ IsMantissa mantissa ∧
      IsExponent exponent := by
  have front := List.takeWhile_append_dropWhile (p := Char.isDigit) (l := text)
  have digits := isDigits_takeWhile text
  simp only [decimal?] at known
  split at known
  · next rest behind =>
    obtain ⟨nonempty, back⟩ := isSome_scaled_iff.mp known
    have places := isDigits_takeWhile rest
    have further := List.takeWhile_append_dropWhile (p := Char.isDigit) (l := rest)
    by_cases bare : text.takeWhile Char.isDigit = []
    · rw [bare, List.nil_append] at nonempty front
      refine ⟨'.' :: rest.takeWhile Char.isDigit, _, ?_, .fraction nonempty places, back⟩
      rw [List.cons_append, further, ← behind]
      exact front.symm
    · refine ⟨_, _, ?_, .point bare digits places, back⟩
      rw [List.append_assoc, List.cons_append, further, ← behind, front]
  · obtain ⟨nonempty, back⟩ := isSome_scaled_iff.mp known
    rw [List.append_nil] at nonempty
    exact ⟨_, _, front.symm, .whole nonempty digits, back⟩

/-- A decimal literal is read. -/
theorem isSome_decimal?_append {mantissa exponent : List Char} (front : IsMantissa mantissa)
    (back : IsExponent exponent) : (decimal? (mantissa ++ exponent)).isSome = true := by
  have ends : ∀ c ∈ exponent.head?, c.isDigit = false := fun c first => (back.head c first).1
  have point (more : List Char) : ∀ c ∈ ('.' :: more).head?, c.isDigit = false := by
    intro c first
    obtain rfl := Option.some.inj first
    rfl
  simp only [decimal?]
  cases front with
  | whole nonempty each =>
    obtain ⟨digits, behind⟩ := takeWhile_append_of_head each ends
    rw [digits, behind]
    split
    · next rest => exact absurd rfl (back.head '.' rfl).2
    · exact isSome_scaled_iff.mpr ⟨by simpa using nonempty, back⟩
  | @point digits places nonempty each also =>
    obtain ⟨inFront, behind⟩ := takeWhile_append_of_head each (point (places ++ exponent))
    obtain ⟨further, last⟩ := takeWhile_append_of_head also ends
    rw [List.append_assoc, List.cons_append, inFront, behind]
    simp only [further, last]
    exact isSome_scaled_iff.mpr ⟨by simp [nonempty], back⟩
  | @fraction places nonempty each =>
    have noDigit : ('.').isDigit = false := rfl
    obtain ⟨further, last⟩ := takeWhile_append_of_head each ends
    rw [List.cons_append, List.takeWhile_cons, List.dropWhile_cons, noDigit]
    simp only [Bool.false_eq_true, if_false, further, last]
    exact isSome_scaled_iff.mpr ⟨by simpa using nonempty, back⟩

/-- Decimal literals are what is read as one. -/
theorem isSome_decimal?_iff (text : List Char) :
    (decimal? text).isSome = true ↔
      ∃ mantissa exponent, text = mantissa ++ exponent ∧ IsMantissa mantissa ∧
        IsExponent exponent := by
  refine ⟨exists_of_isSome_decimal?, ?_⟩
  rintro ⟨mantissa, exponent, rfl, front, back⟩
  exact isSome_decimal?_append front back

/-- A mantissa has a character. -/
theorem IsMantissa.ne_nil {mantissa : List Char} (front : IsMantissa mantissa) : mantissa ≠ [] := by
  cases front with
  | whole nonempty => exact nonempty
  | point => exact List.append_ne_nil_of_right_ne_nil _ (List.cons_ne_nil _ _)
  | fraction => exact List.cons_ne_nil _ _

/-- The characters of a mantissa are digits and the point. -/
theorem IsMantissa.each {mantissa : List Char} (front : IsMantissa mantissa) :
    ∀ c ∈ mantissa, c.isDigit = true ∨ c = '.' := by
  cases front with
  | whole _ each => exact fun c member => Or.inl (each c member)
  | point _ each also =>
    rw [List.forall_mem_append, List.forall_mem_cons]
    exact ⟨fun c member => Or.inl (each c member), Or.inr rfl,
      fun c member => Or.inl (also c member)⟩
  | fraction _ each =>
    rw [List.forall_mem_cons]
    exact ⟨Or.inr rfl, fun c member => Or.inl (each c member)⟩

/-- What holds of the ends of two texts holds of the end of both together. -/
theorem forall_getLast?_append {property : Char → Prop} {front back : List Char}
    (before : ∀ c ∈ front.getLast?, property c) (after : ∀ c ∈ back.getLast?, property c) :
    ∀ c ∈ (front ++ back).getLast?, property c := by
  rw [List.getLast?_append]
  cases last : back.getLast? with
  | none => exact before
  | some c => simpa [last] using after

/-- What holds of all characters holds of the last one. -/
theorem forall_getLast?_of_all {property : Char → Prop} {text : List Char}
    (all : ∀ c ∈ text, property c) : ∀ c ∈ text.getLast?, property c :=
  fun c last => all c (List.mem_of_getLast? last)

/-- An exponent ends with a digit. -/
theorem IsExponent.last {exponent : List Char} (back : IsExponent exponent) :
    ∀ c ∈ exponent.getLast?, c.isDigit = true := by
  cases back with
  | absent => exact nofun
  | @present mark sign digits _ _ nonempty each =>
    rw [← List.cons_append, List.getLast?_append, List.getLast?_eq_some_getLast nonempty,
      Option.some_or, ← List.getLast?_eq_some_getLast nonempty]
    exact forall_getLast?_of_all each

/-- A decimal literal ends with a digit or with the point. -/
theorem last_of_decimal {mantissa exponent : List Char} (front : IsMantissa mantissa)
    (back : IsExponent exponent) :
    ∀ c ∈ (mantissa ++ exponent).getLast?, c.isDigit = true ∨ c = '.' :=
  forall_getLast?_append (forall_getLast?_of_all front.each) fun c last => Or.inl (back.last c last)

/-- A literal with the marker of a base has it behind a zero and in front of digits. -/
theorem marked?_eq_some {text digits : List Char} {base : Base}
    (found : marked? text = some (base, digits)) :
    digits ≠ [] ∧ text = '0' :: base.letter :: digits := by
  unfold marked? at found
  split at found
  · next letter digit rest =>
    obtain ⟨known, marks, same⟩ := Option.map_eq_some_iff.mp found
    obtain ⟨rfl, rfl⟩ := Prod.mk.inj same
    refine ⟨nofun, ?_⟩
    unfold Base.ofLetter? at marks
    split at marks
    · obtain rfl := Option.some.inj marks
      rfl
    · obtain rfl := Option.some.inj marks
      rfl
    · obtain rfl := Option.some.inj marks
      rfl
    · contradiction
  · contradiction

/-- A text with the marker of a base is no decimal literal. -/
theorem decimal?_marked (base : Base) (digits : List Char) :
    decimal? ('0' :: base.letter :: digits) = none := by
  have noExponent : exponent? (base.letter :: digits) = none := by
    rw [← Option.not_isSome_iff_eq_none, isSome_exponent?_iff]
    intro back
    cases back with
    | present letter => cases base <;> exact absurd letter (by decide)
  have digit : ('0').isDigit = true := rfl
  have noDigit : base.letter.isDigit = false := by cases base <;> rfl
  have noPoint : base.letter ≠ '.' := by cases base <;> decide
  simp [decimal?, digit, noDigit, noPoint, noExponent]

/-- The valid texts are the literals without imaginary unit. -/
theorem valid_iff (text : List Char) : valid text = true ↔ IsBody text := by
  unfold valid
  constructor
  · intro good
    split at good
    · next base digits found =>
      obtain ⟨nonempty, rfl⟩ := marked?_eq_some found
      exact .marked base nonempty (List.all_eq_true.mp good)
    · obtain ⟨mantissa, exponent, rfl, front, back⟩ := (isSome_decimal?_iff text).mp good
      exact .decimal front back
  · intro body
    cases body with
    | decimal front back =>
      have known := (isSome_decimal?_iff _).mpr ⟨_, _, rfl, front, back⟩
      split
      · next base digits found =>
        obtain ⟨_, same⟩ := marked?_eq_some found
        rw [same, decimal?_marked] at known
        contradiction
      · exact known
    | @marked base digits nonempty each =>
      obtain ⟨first, others, rfl⟩ := List.exists_cons_of_ne_nil nonempty
      have found : marked? ('0' :: base.letter :: first :: others) =
          Option.some (base, first :: others) := by
        cases base <;> rfl
      rw [found]
      exact List.all_eq_true.mpr each

/-- With a zero in front, a text that begins with the point is valid if it is a literal or a bare
point. -/
theorem valid_point_iff (rest : List Char) :
    valid ('0' :: '.' :: rest) = true ↔ IsBody ('.' :: rest) ∨ IsBarePoint ('.' :: rest) := by
  have unmarked : marked? ('0' :: '.' :: rest) = none ∧ marked? ('.' :: rest) = none := by
    cases rest <;> exact ⟨rfl, rfl⟩
  have digit : ('0').isDigit = true ∧ ('.').isDigit = false := ⟨rfl, rfl⟩
  have filled : valid ('0' :: '.' :: rest) = true ↔
      IsExponent (rest.dropWhile Char.isDigit) := by
    simp [valid, unmarked, decimal?, digit, isSome_exponent?_iff]
  have alone : IsBody ('.' :: rest) ↔
      rest.takeWhile Char.isDigit ≠ [] ∧ IsExponent (rest.dropWhile Char.isDigit) := by
    rw [← valid_iff, ← isSome_exponent?_iff]
    by_cases bare : rest.takeWhile Char.isDigit = [] <;>
      simp [valid, unmarked, decimal?, digit, bare]
  rw [filled, alone]
  constructor
  · intro back
    by_cases bare : rest.takeWhile Char.isDigit = []
    · have whole := List.takeWhile_append_dropWhile (p := Char.isDigit) (l := rest)
      rw [bare, List.nil_append] at whole
      rw [whole] at back
      exact Or.inr ⟨rest, back, rfl⟩
    · exact Or.inl ⟨bare, back⟩
  · rintro (⟨_, back⟩ | ⟨exponent, back, same⟩)
    · exact back
    · obtain ⟨_, rfl⟩ := List.cons.inj same
      have noDigits : IsDigits [] := nofun
      have kept := takeWhile_append_of_head noDigits fun c first => (back.head c first).1
      rw [List.nil_append] at kept
      rwa [kept.2]

/-- What is spelled as a literal is a literal or a bare point. -/
theorem valid_spelled_iff (text : List Char) :
    valid (spelled text) = true ↔ IsBody text ∨ IsBarePoint text := by
  unfold spelled
  split
  · exact valid_point_iff _
  · next other =>
    have noPoint : ¬ IsBarePoint text := by
      rintro ⟨exponent, _, rfl⟩
      exact other exponent rfl
    rw [valid_iff]
    exact (or_iff_left noPoint).symm

end Literal

end Reckoner
