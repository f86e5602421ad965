/-
This file finds the order of magnitude of a positive rational number.
-/

namespace Calculator.Rational

/-- A power exceeds its exponent. -/
theorem exponentLtPower {base : Nat} (large : 1 < base) (exponent : Nat) :
    (exponent : Rat) < (base : Rat) ^ exponent := by
  rw [← Rat.natCast_pow]
  exact Rat.natCast_lt_natCast.mpr (Nat.lt_pow_self large)

theorem mulDen (x : Rat) : x * x.den = x.num := by
  have quotient : x = x.num / x.den := by
    have parts := Rat.num_divInt_den x
    rw [Rat.divInt_eq_div] at parts
    exact parts.symm
  have nonzero : (x.den : Rat) ≠ 0 := fun zero => x.den_nz (Rat.natCast_eq_zero_iff.mp zero)
  calc
    x * x.den = x.num / x.den * x.den := by rw [← quotient]
    _ = x.num := Rat.div_mul_cancel nonzero

theorem oneLeNum {x : Rat} (positive : 0 < x) : (1 : Rat) ≤ x.num := by
  have numerator : 0 < x.num := by
    have cross := (Rat.lt_iff 0 x).mp positive
    simpa using cross
  exact Rat.intCast_le_intCast.mpr numerator

/-- A power above a positive number lies above the inverse of its denominator. -/
theorem negDenLt {base : Nat} {x : Rat} {exponent : Int} (large : 1 < base)
    (positive : 0 < x) (above : x < (base : Rat) ^ exponent) : -(x.den : Int) < exponent := by
  apply Int.lt_of_not_ge
  intro low
  obtain ⟨count, rfl⟩ : ∃ count : Nat, exponent = -(count : Int) :=
    ⟨(-exponent).toNat, by omega⟩
  have room : x.den ≤ count := by omega
  have grows := exponentLtPower large count
  have power : 0 < (base : Rat) ^ count := by
    have := @Rat.natCast_nonneg count
    grind
  rw [Rat.zpow_neg, Rat.zpow_natCast] at above
  have product : x * (base : Rat) ^ count < 1 := by
    have scaled := Rat.mul_lt_mul_of_pos_right above power
    rwa [Rat.inv_mul_cancel _ (Rat.ne_of_gt power)] at scaled
  have whole : (1 : Rat) ≤ x * x.den := by
    rw [mulDen]
    exact oneLeNum positive
  have inside : x * (x.den : Rat) ≤ x * (base : Rat) ^ count := by
    apply Rat.mul_le_mul_of_nonneg_left _ (Rat.le_of_lt positive)
    have := Rat.natCast_le_natCast.mpr room
    grind
  grind

/-- A power at or below a number has an exponent below the numerator. -/
theorem ltNum {base : Nat} {x : Rat} {exponent : Int} (large : 1 < base)
    (below : (base : Rat) ^ exponent ≤ x) : exponent < x.num := by
  have basePositive : (0 : Rat) < base := by
    have : 0 < base := by omega
    exact Rat.natCast_pos.mpr this
  have positive : 0 < x := by
    have := @Rat.zpow_pos _ exponent basePositive
    grind
  have numerator : 0 < x.num := by
    have cross := (Rat.lt_iff 0 x).mp positive
    simpa using cross
  by_cases negative : exponent < 0
  · omega
  obtain ⟨count, rfl⟩ : ∃ count : Nat, exponent = (count : Int) :=
    ⟨exponent.toNat, by omega⟩
  rw [Rat.zpow_natCast] at below
  have grows := exponentLtPower large count
  have shrinks : x ≤ x.num := by
    rw [← mulDen]
    have one : (1 : Rat) ≤ x.den := by
      have := x.den_pos
      exact Rat.natCast_le_natCast.mpr this
    have := Rat.mul_le_mul_of_nonneg_left one (Rat.le_of_lt positive)
    rwa [Rat.mul_one] at this
  have cast : ((count : Int) : Rat) < x.num := by
    rw [Rat.intCast_natCast]
    grind
  exact Rat.intCast_lt_intCast.mp cast

/-- This search lowers an exponent until its power is at most the number. -/
def descend (base : Nat) (x : Rat) (exponent : Int) : Int :=
  if above : 1 < base ∧ 0 < x ∧ x < (base : Rat) ^ exponent then
    descend base x (exponent - 1)
  else exponent
termination_by (exponent + x.den).toNat
decreasing_by
  have := negDenLt above.1 above.2.1 above.2.2
  omega

/-- This search raises an exponent while the next power is at most the number. -/
def ascend (base : Nat) (x : Rat) (exponent : Int) : Int :=
  if below : 1 < base ∧ (base : Rat) ^ (exponent + 1) ≤ x then
    ascend base x (exponent + 1)
  else exponent
termination_by (x.num - exponent).toNat
decreasing_by
  have := ltNum below.1 below.2
  omega

/-- The order of a positive number is the exponent of the last power at or below it, and the
search may start from any exponent. -/
def orderFrom (base : Nat) (x : Rat) (start : Int) : Int :=
  ascend base x (descend base x start)

/-- The lengths of the numerator and the denominator give a start near the order. -/
def order (base : Nat) (x : Rat) : Int :=
  orderFrom base x (((x.num.toNat.log2 : Int) - x.den.log2) / base.log2)

end Calculator.Rational
