import Reckoner.Binary64.Integer
/-!
# Adding zeros

The parts of a complex number are combined with zeros when its text is read. A zero of either sign
does not change the value of a finite double; only the sign of a zero may be lost. What is left of
a double without itself is zero.
-/

namespace Reckoner.Binary64

/-- The doubles are finite and in the same place: they are equal, or zeros. -/
structure SameValue (x y : Binary64) : Prop where
  /-- The first one is finite. -/
  finite : x.isFinite = true
  /-- The second one is finite. -/
  alsoFinite : y.isFinite = true
  /-- Their places are the same. -/
  place : x.place = y.place

namespace SameValue

variable {x y z : Binary64}

/-- A finite double has its own value. -/
theorem refl (finite : x.isFinite = true) : SameValue x x := ⟨finite, finite, rfl⟩

/-- Doubles of the value of a third one have the same value. -/
theorem trans (first : SameValue x y) (second : SameValue y z) : SameValue x z :=
  ⟨first.finite, second.alsoFinite, first.place.trans second.place⟩

/-- Finite doubles without units have the same value, whatever their signs are. -/
theorem of_units_eq_zero (finite : x.isFinite = true) (alsoFinite : y.isFinite = true)
    (noUnits : x.units = 0) (alsoNoUnits : y.units = 0) : SameValue x y := by
  refine ⟨finite, alsoFinite, ?_⟩
  simp [Binary64.place, magnitude_eq_zero finite noUnits, magnitude_eq_zero alsoFinite alsoNoUnits]

/-- Doubles of the same value are equal to the comparison. -/
theorem beq (sameValue : SameValue x y) : (x == y) = true := by
  obtain ⟨_, number⟩ := (isFinite_eq_true_iff x).mp sameValue.finite
  obtain ⟨_, alsoNumber⟩ := (isFinite_eq_true_iff y).mp sameValue.alsoFinite
  show x.same y = true
  simp [same, number, alsoNumber, sameValue.place]

end SameValue

/-- The sum of finite doubles does not depend on their order. -/
theorem finiteSum_comm (x y : Binary64) : finiteSum x y = finiteSum y x := by
  unfold finiteSum
  by_cases signs : x.negative = y.negative
  · rw [if_pos signs, if_pos signs.symm, signs, Nat.add_comm]
  · rw [if_neg signs, if_neg (Ne.symm signs)]
    by_cases less : y.units < x.units
    · rw [if_pos less, if_neg (Nat.lt_asymm less), if_pos less]
    · rw [if_neg less]
      by_cases more : x.units < y.units
      · rw [if_pos more, if_pos more]
      · rw [if_neg more, if_neg more, if_neg less]

/-- A summand without units does not change the value of a finite double. -/
theorem sameValue_finiteSum {x zero : Binary64} (finite : x.isFinite = true)
    (noUnits : zero.units = 0) : SameValue (finiteSum x zero) x := by
  have self := ofUnits_negative_units finite
  by_cases signs : x.negative = zero.negative
  · rw [finiteSum, if_pos signs, noUnits, Nat.add_zero, self]
    exact .refl finite
  · by_cases positive : 0 < x.units
    · rw [finiteSum, if_neg signs, noUnits, if_pos positive, Nat.sub_zero, self]
      exact .refl finite
    · have nothing : x.units = 0 := Nat.eq_zero_of_not_pos positive
      rw [finiteSum, if_neg signs, noUnits, if_neg positive, nothing, if_neg (Nat.lt_irrefl 0)]
      exact .of_units_eq_zero (by decide +kernel) finite (by decide +kernel) nothing

/-- A finite double less itself is zero. -/
theorem sub_self {x : Binary64} (finite : x.isFinite = true) : x - x = 0 := by
  have alsoFinite : (-x).isFinite = true := finite
  have signs : ¬ x.negative = (-x).negative := by
    show ¬ x.negative = !x.negative
    cases x.negative <;> decide
  have units : (-x).units = x.units := rfl
  rw [sub_of_isFinite finite finite, add_of_isFinite finite alsoFinite, finiteSum, if_neg signs,
    units, if_neg (Nat.lt_irrefl _), if_neg (Nat.lt_irrefl _)]

/-- A zero behind a finite double does not change the value of the sum. -/
theorem sameValue_add {x zero : Binary64} (finite : x.isFinite = true)
    (alsoFinite : zero.isFinite = true) (noUnits : zero.units = 0) : SameValue (x + zero) x := by
  rw [add_of_isFinite finite alsoFinite]
  exact sameValue_finiteSum finite noUnits

/-- A zero in front of a finite double does not change the value of the sum. -/
theorem sameValue_zero_add {zero x : Binary64} (alsoFinite : zero.isFinite = true)
    (noUnits : zero.units = 0) (finite : x.isFinite = true) : SameValue (zero + x) x := by
  rw [add_of_isFinite alsoFinite finite, finiteSum_comm]
  exact sameValue_finiteSum finite noUnits

end Reckoner.Binary64
