/-
This file proves which angles have no tangent.
-/

import Calculator.Proofs.Angle.Residue
import Calculator.Proofs.Binary64.Closure
import Calculator.Proofs.Elementary

namespace Calculator

open Binary64 Rational

namespace AngleUnit

variable {unit : AngleUnit} {turn : Nat} {x : Float}

theorem turnEither (turned : unit.turn? = some turn) : turn = 360 ∨ turn = 400 := by
  cases unit with
  | degree => exact .inl (Option.some.inj turned).symm
  | radian => cases turned
  | gradian => exact .inr (Option.some.inj turned).symm

theorem turnQuarters (turned : unit.turn? = some turn) :
    ∃ quarter, turn = 4 * quarter ∧ 90 ≤ quarter ∧ quarter ≤ 100 := by
  rcases turnEither turned with rfl | rfl
  · exact ⟨90, rfl, by decide, by decide⟩
  · exact ⟨100, rfl, by decide, by decide⟩

/-- The conversion makes an angle smaller. -/
theorem toRadiansFinite (unit : AngleUnit) (finite : x.isFinite) :
    (unit.toRadians x).isFinite := by
  have order := exponentGreatest finite
  cases unit with
  | degree =>
      have factor : (pi / 180).isFinite ∧ exponent (pi / 180) ≤ -54 := by decide +kernel
      exact mulFinite finite factor.1 (by omega)
  | radian => exact finite
  | gradian =>
      have factor : (pi / 200).isFinite ∧ exponent (pi / 200) ≤ -54 := by decide +kernel
      exact mulFinite finite factor.1 (by omega)

end AngleUnit

section Bounds

variable {unit : AngleUnit} {turn : Nat}

/-- The residue is at most half a spacing beyond the first turn. -/
theorem residueBounds (turned : unit.turn? = some turn) (x : Float) :
    (residue turn x).isFinite ∧ 0 ≤ value (residue turn x) ∧
      value (residue turn x) < 5 * (turn / 4) := by
  obtain ⟨quarter, whole, least, greatest⟩ := AngleUnit.turnQuarters turned
  have narrowest : (360 : Rat) ≤ turn := by exact_mod_cast show 360 ≤ turn by omega
  have widest : (turn : Rat) ≤ 400 := by exact_mod_cast show turn ≤ 400 by omega
  obtain ⟨low, high⟩ := exactResidueRange (show 0 < turn by omega) (value x)
  obtain ⟨finite, plus, near⟩ := nearestRadius low (by norm_num; linarith)
  have tiny : (2 : Rat) ^ (-45 : Int) < 1 := by norm_num
  obtain ⟨_, above⟩ := abs_le.mp near
  rw [residueNearest]
  refine ⟨finite, ?_, by linarith⟩
  rw [valuePlus plus]
  exact magnitudeNonneg _

end Bounds

section Count

variable {turn : Nat} {angle : Rat}

/-- The count of quarter turns is an odd integer exactly if the angle is an odd count of them. -/
theorem countOdd (positive : 0 < turn) (nonnegative : 0 ≤ angle) :
    OddQuarters turn angle ↔
      (angle / (turn / 4)).isInt ∧ (angle / (turn / 4)).num.toNat % 2 = 1 := by
  have above : (0 : Rat) < turn / 4 := by
    have : (0 : Rat) < turn := by exact_mod_cast positive
    positivity
  have counted := div_nonneg nonnegative above.le
  have restored := div_mul_cancel₀ angle above.ne'
  generalize angle / (turn / 4) = count at *
  constructor
  · rintro ⟨n, quarters⟩
    obtain rfl : count = ((2 * n + 1 : Int) : Rat) := by
      push_cast
      exact mul_right_cancel₀ above.ne' (restored.trans quarters)
    have integer : (0 : Int) ≤ 2 * n + 1 := by exact_mod_cast counted
    refine ⟨isIntIff.mpr ⟨_, rfl⟩, ?_⟩
    rw [Rat.num_intCast]
    omega
  · rintro ⟨whole, odd⟩
    obtain ⟨n, rfl⟩ := isIntIff.mp whole
    rw [Rat.num_intCast] at odd
    refine ⟨n / 2, ?_⟩
    have half : 2 * (n / 2) + 1 = n := by omega
    have cast : (n : Rat) = 2 * (n / 2 : Int) + 1 := by exact_mod_cast half.symm
    rw [← restored, ← cast]

end Count

namespace AngleFunction

section

variable [elementary : Elementary] {unit : AngleUnit} {turn : Nat} {x : Float}

/-- The tangent is refused exactly if the residue is an odd count of quarter turns. -/
theorem tangentOfResidue (tangent : elementary.FiniteTangent) (turned : unit.turn? = some turn)
    (finite : x.isFinite) :
    (OddQuarters turn (value (residue turn x)) →
        tan.apply unit x = .error (.outOfDomain .undefinedTangent)) ∧
      (¬OddQuarters turn (value (residue turn x)) →
        ∃ y : Float, y.isFinite ∧ tan.apply unit x = .ok y) := by
  obtain ⟨quarter, whole, least, greatest⟩ := AngleUnit.turnQuarters turned
  have positive : 0 < turn := by omega
  obtain ⟨finiteResidue, nonnegative, _⟩ := residueBounds turned x
  have applied : tan.apply unit x =
      if (value (residue turn x) / (turn / 4)).isInt then
        tan.ofQuarters (value (residue turn x) / (turn / 4)).num.toNat
      else tan.converted (unit.toRadians (residue turn x)) := by
    rw [apply, if_pos finite, turned]
  rw [applied, countOdd positive nonnegative]
  constructor
  · rintro ⟨integer, odd⟩
    rw [if_pos integer, ofQuarters, if_neg (by omega)]
  · intro even
    split
    · next integer =>
      refine ⟨0, by decide, ?_⟩
      rw [ofQuarters, if_pos]
      exact Nat.mod_two_ne_one.mp fun odd => even ⟨integer, odd⟩
    · have defined := tangent _ (unit.toRadiansFinite finiteResidue)
      exact ⟨_, defined, if_pos defined⟩

/-- The tangent of an odd count of quarter turns is refused. The four numbers beside the first
quarter turn below zero are refused too, because their residues are rounded to three quarter turns,
and every other tangent is finite. -/
theorem tangentRefused (tangent : elementary.FiniteTangent) (turned : unit.turn? = some turn)
    (finite : x.isFinite) :
    (tan.apply unit x = .error (.outOfDomain .undefinedTangent) ↔
        OddQuarters turn (value x) ∨ |value x + turn / 4| ≤ 2 ^ (-45 : Int)) ∧
      (¬(OddQuarters turn (value x) ∨ |value x + turn / 4| ≤ 2 ^ (-45 : Int)) →
        ∃ y : Float, y.isFinite ∧ tan.apply unit x = .ok y) := by
  obtain ⟨quarter, whole, least, greatest⟩ := AngleUnit.turnQuarters turned
  obtain ⟨refused, defined⟩ := tangentOfResidue tangent turned finite
  rw [quarterCast whole, ← residueOddQuarters whole least greatest finite]
  refine ⟨⟨fun same => ?_, refused⟩, defined⟩
  by_contra even
  obtain ⟨y, _, result⟩ := defined even
  rw [result] at same
  cases same

end

/-- An eighth of a turn has a tangent, and the number below minus a quarter turn is refused. -/
theorem tangentRefusedEighth :
    letI := Elementary.sample
    (∃ y : Float, y.isFinite ∧ tan.apply .degree 45 = .ok y) ∧
      tan.apply .degree (.ofBits 0xC056800000000001) =
        .error (.outOfDomain .undefinedTangent) := by
  let _ := Elementary.sample
  have eighth := tangentRefused (x := 45) Elementary.sampleTangent
    (show AngleUnit.degree.turn? = some 360 from rfl) (by decide)
  have beside := tangentRefused (x := .ofBits 0xC056800000000001) Elementary.sampleTangent
    (show AngleUnit.degree.turn? = some 360 from rfl) (by decide)
  have values : value 45 = 45 ∧ value (.ofBits 0xC056800000000001) = -90 - 2 ^ (-46 : Int) := by
    decide +kernel
  rw [values.1] at eighth
  rw [values.2] at beside
  constructor
  · refine eighth.2 ?_
    rintro (⟨n, same⟩ | near)
    · have even : (45 : Int) = (2 * n + 1) * 90 := by
        push_cast at same
        norm_num at same
        exact_mod_cast same
      omega
    · norm_num [abs_le] at near
  · refine beside.1.mpr (.inr ?_)
    norm_num

/-- The number below minus a quarter turn is no odd count of quarter turns, but its residue is. -/
theorem tangentBeside :
    let x : Float := .ofBits 0xC056800000000001
    x.isFinite ∧ AngleUnit.degree.turn? = some 360 ∧ ¬OddQuarters 360 (value x) ∧
      tan.apply .degree x = .error (.outOfDomain .undefinedTangent) := by
  intro x
  have exact : value x = -(90 * 2 ^ 46 + 1) / 2 ^ 46 := by decide +kernel
  have count : value (residue 360 x) / ((360 : Nat) / 4) = 3 := by decide +kernel
  have refused : tan.apply .degree x = .error (.outOfDomain .undefinedTangent) := by
    rw [apply, if_pos (by decide)]
    simp only [AngleUnit.turn?, count]
    rfl
  refine ⟨by decide, rfl, ?_, refused⟩
  rintro ⟨n, same⟩
  rw [exact, div_eq_iff (by norm_num)] at same
  have whole : -(90 * 2 ^ 46 + 1) = (2 * n + 1) * 90 * 2 ^ 46 := by
    push_cast at same
    norm_num at same
    norm_num
    exact_mod_cast same
  omega

end AngleFunction

end Calculator
