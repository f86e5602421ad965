/-
This file proves that the operations of the numbers reduce an angle to its residue.
-/

import Calculator.Proofs.Angle.Tangent
import Calculator.Proofs.Binary64.Remainder
import Calculator.Proofs.Binary64.Sum

namespace Calculator

open Binary64 Rational

/-- A remainder below zero is raised by one turn. -/
def raised (turn : Nat) (x : Float) : Float :=
  let rest := remainder x (Float.ofNat turn)
  if rest < 0 then rest + Float.ofNat turn else rest

/-- The reduced angle is divided by a quarter turn. -/
def raisedQuarters (turn : Nat) (x : Float) : Float :=
  raised turn x / (Float.ofNat turn / 4)

namespace AngleFunction

variable [Elementary]

/-- The quarter turns are recognised by a remainder, and they are counted in 32 bits. -/
def applyReduced (f : AngleFunction) (unit : AngleUnit) (x : Float) : Except MathError Float :=
  if x.isFinite then
    match unit.turn? with
    | none => f.converted x
    | some turn =>
      if remainder (raised turn x) (Float.ofNat turn / 4) == 0 then
        f.ofQuarters ((raisedQuarters turn x).toUInt32.toNat % 4)
      else f.converted (unit.toRadians (raised turn x))
  else .error (.outOfDomain .infiniteAngle)

end AngleFunction

section Turn

variable {unit : AngleUnit} {turn : Nat} {x : Float}

theorem AngleUnit.turnPositive (turned : unit.turn? = some turn) : (0 : Rat) < turn := by
  obtain ⟨quarter, whole, least, _⟩ := turnQuarters turned
  exact_mod_cast show 0 < turn by omega

theorem AngleUnit.quarterPositive (turned : unit.turn? = some turn) : (0 : Rat) < turn / 4 :=
  div_pos (turnPositive turned) (by norm_num)

theorem AngleUnit.turnValue (turned : unit.turn? = some turn) :
    (Float.ofNat turn).isFinite ∧ value (Float.ofNat turn) = turn := by
  rcases turnEither turned with rfl | rfl <;> decide +kernel

theorem AngleUnit.quarterValue (turned : unit.turn? = some turn) :
    value (Float.ofNat turn / 4) = turn / 4 := by
  rcases turnEither turned with rfl | rfl <;> decide +kernel

theorem exactResidueInside (turned : unit.turn? = some turn) (angle : Rat) :
    exactResidue turn angle < limit := by
  obtain ⟨quarter, whole, _, greatest⟩ := AngleUnit.turnQuarters turned
  have widest : (turn : Rat) ≤ 400 := by exact_mod_cast show turn ≤ 400 by omega
  obtain ⟨_, high⟩ := exactResidueRange (show 0 < turn by omega) angle
  calc exactResidue turn angle < turn := high
    _ ≤ 2 ^ (9 : Int) := by linarith
    _ < limit := powerLtLimit (by decide)

/-- The remainder is the residue or the residue less one turn. -/
theorem remainderTurn (turned : unit.turn? = some turn) (finite : x.isFinite) :
    let rest := remainder x (Float.ofNat turn)
    rest.isFinite ∧ -turn < value rest ∧
      exactResidue turn (value x) = if value rest < 0 then value rest + turn else value rest := by
  intro rest
  have positive := AngleUnit.turnPositive turned
  have whole := (AngleUnit.turnValue turned).2
  have nonzero : value (Float.ofNat turn) ≠ 0 := by
    rw [whole]
    exact positive.ne'
  obtain ⟨finiteRest, exact⟩ := remainderExact finite nonzero
  have range := remainderRange finite nonzero
  rw [whole] at exact range
  rw [abs_of_pos positive] at range
  obtain ⟨below, above⟩ := abs_lt.mp range
  refine ⟨finiteRest, below, ?_⟩
  show _ = if value (remainder x (Float.ofNat turn)) < 0 then _ else _
  generalize truncate (value x / turn) = turns at exact
  split
  · rw [exactResidueUnique (turns - 1)] <;> push_cast <;> linarith
  · rw [exactResidueUnique turns] <;> linarith

/-- Only the sum with the turn is rounded, and it is rounded as the residue is. The remainder can be
a negative zero, and the residue is a positive one then. -/
theorem raisedCases (turned : unit.turn? = some turn) (finite : x.isFinite) :
    raised turn x = residue turn x ∨
      ((raised turn x).isFinite ∧ value (raised turn x) = 0 ∧ value (residue turn x) = 0) := by
  obtain ⟨finiteRest, low, exact⟩ := remainderTurn turned finite
  have inside := exactResidueInside turned (value x)
  obtain ⟨finiteTurn, whole⟩ := AngleUnit.turnValue turned
  rw [exact] at inside
  rw [residueNearest, exact, raised]
  simp only [ltZeroIff finiteRest]
  rcases lt_trichotomy (value (remainder x (Float.ofNat turn))) 0 with minus | zero | plus
  · left
    rw [if_pos minus] at inside
    rw [if_pos minus, if_pos minus]
    rw [addNearest finiteRest finiteTurn] <;> rw [whole]
    · linarith
    · exact inside
  · right
    have notBelow := not_lt.mpr zero.ge
    rw [if_neg notBelow, if_neg notBelow, zero, nearestZero]
    exact ⟨finiteRest, rfl, valueNothing⟩
  · left
    have notBelow := not_lt.mpr plus.le
    rw [if_neg notBelow, if_neg notBelow, nearestOwn finiteRest plus]

theorem raisedValue (turned : unit.turn? = some turn) (finite : x.isFinite) :
    (raised turn x).isFinite ∧ value (raised turn x) = value (residue turn x) := by
  rcases raisedCases turned finite with same | ⟨finiteRaised, zero, other⟩
  · rw [same]
    exact ⟨(residueBounds turned x).1, rfl⟩
  · exact ⟨finiteRaised, by rw [zero, other]⟩

/-- The number is an integer, and 32 bits hold it. -/
structure IsCount (x : Float) (n : Nat) : Prop where
  integer : IsInteger x n
  bits : x.toUInt32.toNat = n

instance (x : Float) (n : Nat) : Decidable (IsCount x n) :=
  decidable_of_iff (IsInteger x n ∧ x.toUInt32.toNat = n)
    ⟨fun ⟨integer, bits⟩ => ⟨integer, bits⟩, fun ⟨integer, bits⟩ => ⟨integer, bits⟩⟩

theorem AngleUnit.quarterCounts (turned : unit.turn? = some turn) :
    (IsCount (0 / (Float.ofNat turn / 4)) 0 ∧ IsCount (-0 / (Float.ofNat turn / 4)) 0) ∧
      ∀ n ≤ 4, let angle := Float.ofNat (n * (turn / 4))
        IsInteger angle (n * (turn / 4) : Nat) ∧ IsCount (angle / (Float.ofNat turn / 4)) n := by
  rcases turnEither turned with rfl | rfl <;> decide +kernel

/-- The division of at most four quarter turns is exact. -/
theorem countOfQuarters (turned : unit.turn? = some turn) {n : Nat} (few : n ≤ 4)
    (finite : x.isFinite) (exact : value x = n * (turn / 4)) :
    IsCount (x / (Float.ofNat turn / 4)) n := by
  obtain ⟨⟨plusZero, minusZero⟩, counts⟩ := AngleUnit.quarterCounts turned
  rcases Nat.eq_zero_or_pos n with rfl | present
  · rw [Nat.cast_zero, zero_mul] at exact
    rcases zeroCases exact with rfl | rfl
    · exact plusZero
    · exact minusZero
  · obtain ⟨quarter, whole, least, _⟩ := AngleUnit.turnQuarters turned
    obtain ⟨integer, count⟩ := counts n few
    have same : value x = value (Float.ofNat (n * (turn / 4))) := by
      rw [integer.value, exact, quarterCast whole, whole,
        Nat.mul_div_cancel_left quarter (by decide)]
      push_cast
      rfl
    have positive : 0 < value x := by
      rw [exact]
      exact mul_pos (Nat.cast_pos.mpr present) (AngleUnit.quarterPositive turned)
    rwa [← nearestOwn finite positive, same, nearestOwn integer.finite (same ▸ positive)]

/-- A residue of whole quarter turns has at most four of them. -/
theorem residueQuarters (turned : unit.turn? = some turn)
    (whole : (value (residue turn x) / (turn / 4)).isInt) :
    ∃ n : Nat, n ≤ 4 ∧ value (residue turn x) = n * (turn / 4) ∧
      (value (residue turn x) / (turn / 4)).num.toNat = n := by
  have positive := AngleUnit.quarterPositive turned
  obtain ⟨_, low, high⟩ := residueBounds turned x
  obtain ⟨count, quotient⟩ := isIntIff.mp whole
  rw [quotient, Rat.num_intCast]
  rw [div_eq_iff positive.ne'] at quotient
  rw [quotient, mul_nonneg_iff_of_pos_right positive] at low
  rw [quotient, mul_lt_mul_iff_left₀ positive] at high
  have least : 0 ≤ count := by exact_mod_cast low
  have greatest : count < 5 := by exact_mod_cast high
  obtain ⟨n, rfl⟩ := Int.eq_ofNat_of_zero_le least
  exact ⟨n, by omega, by rw [quotient, Int.cast_natCast], Int.toNat_natCast n⟩

/-- Only a reduced angle of whole quarter turns leaves no remainder. -/
theorem raisedRecognised (turned : unit.turn? = some turn) (finite : x.isFinite) :
    remainder (raised turn x) (Float.ofNat turn / 4) == 0 ↔
      (value (residue turn x) / (turn / 4)).isInt := by
  obtain ⟨finiteRaised, same⟩ := raisedValue turned finite
  have quarter := AngleUnit.quarterValue turned
  have nonzero : value (Float.ofNat turn / 4) ≠ 0 := by
    rw [quarter]
    exact (AngleUnit.quarterPositive turned).ne'
  rw [remainderZeroIff finiteRaised nonzero, quarter, same]

end Turn

namespace AngleFunction

theorem ofQuartersTurns (f : AngleFunction) (quarters : Nat) :
    f.ofQuarters (quarters % 4) = f.ofQuarters quarters := by
  cases f with
  | sin => simp only [ofQuarters, quarterSine, Nat.mod_mod]
  | cos => simp only [ofQuarters, quarterSine, Nat.mod_add_mod]
  | tan => simp only [ofQuarters, Nat.mod_mod_of_dvd quarters (show 2 ∣ 4 by decide)]

variable [Elementary] {unit : AngleUnit} {turn : Nat} {x : Float}

/-- The reduction by the operations gives what the exact residue gives. Their results differ only in
the sign of a zero, and a zero is a count of quarter turns. -/
theorem applyByOperations (f : AngleFunction) (unit : AngleUnit) (x : Float) :
    f.apply unit x = f.applyReduced unit x := by
  unfold apply applyReduced
  split
  · next finite =>
    cases turned : unit.turn? with
    | none => rfl
    | some turn =>
        obtain ⟨finiteRaised, same⟩ := raisedValue turned finite
        simp only [raisedRecognised turned finite]
        split
        · next whole =>
          obtain ⟨n, few, exact, count⟩ := residueQuarters turned whole
          have counted := countOfQuarters turned few finiteRaised (same.trans exact)
          rw [count, raisedQuarters, counted.bits, ofQuartersTurns]
        · next broken =>
          rcases raisedCases turned finite with equal | ⟨_, _, zero⟩
          · rw [equal]
          · rw [zero, zero_div] at broken
            exact absurd rfl broken
  · rfl

end AngleFunction

end Calculator
