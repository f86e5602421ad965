/-
This file proves that whole turns change no function of an angle and that the functions are exact at
every count of quarter turns.
-/

import Calculator.Proofs.Angle.Reduction

namespace Calculator

open Binary64 Rational

section Residue

variable {unit : AngleUnit} {turn : Nat} {x : Float} {angle : Rat}

theorem exactResidueTurns (positive : (0 : Rat) < turn) (turns : Int) :
    exactResidue turn (angle + turns * turn) = exactResidue turn angle := by
  have quotient : (angle + turns * turn) / turn = angle / turn + turns := by
    rw [add_div, mul_div_cancel_right₀ _ positive.ne']
  rw [exactResidue, quotient, Rat.floor_add_intCast, exactResidue]
  push_cast
  ring

/-- The residue of a count of quarter turns is the count of those after the last whole turn, and it
is not rounded. -/
theorem residueOfQuarters (turned : unit.turn? = some turn) {quarters : Int}
    (exact : value x = quarters * (turn / 4)) :
    value (residue turn x) = (quarters % 4).toNat * (turn / 4) := by
  obtain ⟨quarter, whole, _, greatest⟩ := AngleUnit.turnQuarters turned
  have few : (quarters % 4).toNat < 4 := by omega
  have split : (quarters : Rat) = (quarters % 4).toNat + (quarters / 4 : Int) * 4 := by
    have parts : quarters = (quarters % 4).toNat + quarters / 4 * 4 := by omega
    exact_mod_cast parts
  generalize (quarters % 4).toNat = n at few split
  have angle : exactResidue turn (value x) = (n * quarter : Nat) := by
    have least := AngleUnit.turnPositive turned
    have restored : value x = n * quarter + (quarters / 4 : Int) * turn := by
      rw [exact, quarterCast whole, split, turnCast whole]
      ring
    rw [restored, exactResidueTurns least, exactResidueUnique 0]
    · push_cast
      ring
    · push_cast
      rw [mul_zero]
      positivity
    · have inside : ((n * quarter : Nat) : Rat) < turn := by
        have below : n * quarter ≤ 3 * quarter := Nat.mul_le_mul_right _ (by omega)
        exact_mod_cast show n * quarter < turn by omega
      push_cast at inside ⊢
      rwa [zero_add, mul_one]
  have small : n * quarter ≤ 2 ^ 53 := by
    calc n * quarter ≤ 4 * 100 := Nat.mul_le_mul (by omega) greatest
      _ ≤ 2 ^ 53 := by decide
  rw [residueNearest, angle, (nearestInteger small).value, quarterCast whole]
  push_cast
  rfl

end Residue

namespace AngleFunction

/-- The table of the quarter turns, read with a count of any sign. -/
theorem ofQuartersTable (quarters : Int) :
    sin.ofQuarters (quarters % 4).toNat =
        .ok (if quarters % 4 = 1 then 1 else if quarters % 4 = 3 then -1 else 0) ∧
      cos.ofQuarters (quarters % 4).toNat =
        .ok (if quarters % 4 = 0 then 1 else if quarters % 4 = 2 then -1 else 0) ∧
      tan.ofQuarters (quarters % 4).toNat =
        (if quarters % 2 = 0 then .ok 0 else .error (.outOfDomain .undefinedTangent)) := by
  have even : (quarters % 4).toNat % 2 = 0 ↔ quarters % 2 = 0 := by omega
  refine ⟨?_, ?_, by simp only [ofQuarters, even]⟩
  all_goals
    obtain zero | one | two | three :
      quarters % 4 = 0 ∨ quarters % 4 = 1 ∨ quarters % 4 = 2 ∨ quarters % 4 = 3 := by omega
  all_goals simp [ofQuarters, quarterSine, *]

variable {unit : AngleUnit} {turn : Nat} {x y : Float}

theorem applyOfResidue [Elementary] (f : AngleFunction) (turned : unit.turn? = some turn)
    (finite : x.isFinite) {n : Nat} (exact : value (residue turn x) = n * (turn / 4)) :
    f.apply unit x = f.ofQuarters n := by
  have positive := AngleUnit.quarterPositive turned
  have count : value (residue turn x) / (turn / 4) = (n : Int) := by
    rw [exact, mul_div_cancel_right₀ _ positive.ne', Int.cast_natCast]
  simp only [apply, if_pos finite, turned, count]
  rw [if_pos (isIntIff.mpr ⟨_, rfl⟩), Rat.num_intCast, Int.toNat_natCast]

/-- Whole turns change no function of an angle, whatever the signs and the sizes of the two angles
are. The result and the error are the same, and they are so too if the operations of the numbers
reduce the angles. -/
theorem applyPeriodic [Elementary] (f : AngleFunction) (turned : unit.turn? = some turn)
    (finite : x.isFinite) (finiteOther : y.isFinite) {turns : Int}
    (apart : value x - value y = turns * turn) :
    f.apply unit x = f.apply unit y ∧ f.applyReduced unit x = f.applyReduced unit y := by
  have same : residue turn x = residue turn y := by
    have shifted : value x = value y + turns * turn := by linarith
    rw [residueNearest, residueNearest, shifted, exactResidueTurns (AngleUnit.turnPositive turned)]
  have equal : f.apply unit x = f.apply unit y := by
    simp only [apply, if_pos finite, if_pos finiteOther, turned, same]
  exact ⟨equal, by rw [← applyByOperations, ← applyByOperations, equal]⟩

/-- The 1000th power of two and -344 degrees have the same sine. -/
theorem applyPeriodicFar :
    let x : Float := .ofBits 0x7E70000000000000
    let y : Float := -344
    value x = 2 ^ 1000 ∧ value y = -344 ∧ x.isFinite ∧ y.isFinite ∧
      AngleUnit.degree.turn? = some 360 ∧
      value x - value y = ((2 ^ 1000 + 344) / 360 : Int) * (360 : Nat) ∧
      sin.apply .degree x = sin.apply .degree y := by
  intro x y
  have values : value x = 2 ^ 1000 ∧ value y = -344 ∧ x.isFinite ∧ y.isFinite ∧
      value x - value y = ((2 ^ 1000 + 344) / 360 : Int) * (360 : Nat) := by
    decide +kernel
  obtain ⟨far, near, finite, finiteOther, apart⟩ := values
  have turned : AngleUnit.degree.turn? = some 360 := rfl
  exact ⟨far, near, finite, finiteOther, turned, apart,
    (applyPeriodic .sin turned finite finiteOther apart).1⟩

/-- The functions are exact at every count of quarter turns. The quotient of the reduced angle and
the quarter turn is the count after the last whole turn, so 32 bits hold it. -/
theorem applyQuarterTurns [Elementary] (turned : unit.turn? = some turn) (finite : x.isFinite)
    {quarters : Int} (exact : value x = quarters * (turn / 4)) :
    sin.apply unit x = .ok (if quarters % 4 = 1 then 1 else if quarters % 4 = 3 then -1 else 0) ∧
      cos.apply unit x = .ok (if quarters % 4 = 0 then 1 else if quarters % 4 = 2 then -1 else 0) ∧
      tan.apply unit x =
        (if quarters % 2 = 0 then .ok 0 else .error (.outOfDomain .undefinedTangent)) ∧
      IsCount (raisedQuarters turn x) (quarters % 4).toNat := by
  have residue := residueOfQuarters turned exact
  obtain ⟨finiteRaised, same⟩ := raisedValue turned finite
  have count : IsCount (raisedQuarters turn x) (quarters % 4).toNat :=
    countOfQuarters turned (by omega) finiteRaised (same.trans residue)
  obtain ⟨sine, cosine, tangent⟩ := ofQuartersTable quarters
  refine ⟨?_, ?_, ?_, count⟩
  · rw [applyOfResidue .sin turned finite residue, sine]
  · rw [applyOfResidue .cos turned finite residue, cosine]
  · rw [applyOfResidue .tan turned finite residue, tangent]

/-- Beyond minus 10 to the 16th an odd count of quarter turns is still exact. -/
theorem applyQuarterTurnsFar :
    let x : Float := -12666373951979610
    x.isFinite ∧ AngleUnit.degree.turn? = some 360 ∧
      value x = (-(2 ^ 47 + 1) : Int) * ((360 : Nat) / 4) ∧
      sin.apply .degree x = .ok (-1) ∧ cos.apply .degree x = .ok 0 ∧
      tan.apply .degree x = .error (.outOfDomain .undefinedTangent) ∧
      IsCount (raisedQuarters 360 x) 3 := by
  intro x
  have finite : x.isFinite := by decide
  have exact : value x = (-(2 ^ 47 + 1) : Int) * ((360 : Nat) / 4) := by decide +kernel
  have turned : AngleUnit.degree.turn? = some 360 := rfl
  exact ⟨finite, turned, exact, applyQuarterTurns turned finite exact⟩

end AngleFunction

end Calculator
