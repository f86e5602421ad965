/-
This file proves that the operations on finite numbers give numbers, and which of them stay finite.
-/

import Calculator.Proofs.Binary64.Comparison

namespace Calculator.Binary64

open Float.Model Float.Model.UnpackedFloat

section Packing

variable {x : Float} {unpacked : UnpackedFloat}

theorem finiteIffNumber : x.isFinite ↔ x.isNaN = false ∧ x.isInf = false := by
  rw [finiteIff, ← Bool.not_eq_true, ← Bool.not_eq_true, nanIff, infIff]
  omega

theorem packedFields {s : Sign} {e : BitVec 11} {m : BitVec 52}
    (packed : x.toBits.toBitVec = packComponents Format.binary64 s e m) :
    field x = e.toNat ∧ fraction x = m.toNat := by
  rw [← unpackField, ← unpackFraction, packed, unpackExponent_packComponents,
    unpackMantissa_packComponents]
  exact ⟨rfl, rfl⟩

theorem zeroPacked {s : Sign}
    (packed : x.toBits.toBitVec = UnpackedFloat.pack Format.binary64 (.zero s)) : x.isFinite := by
  have fields := packedFields packed
  rw [finiteIff, fields.1]
  decide

/-- Only an exponent above that of the largest finite number is packed as an infinity. -/
theorem finitePacked {s : Sign} {m : Nat} {e : Int} {positive : 0 < m}
    (packed : x.toBits.toBitVec =
      UnpackedFloat.pack Format.binary64 (.finite s m e positive)) :
    x.isFinite ∨ (x.isInf ∧ 971 < e) := by
  have bias : Format.binary64.exponentBias = 1023 := by decide
  simp only [UnpackedFloat.pack, bias] at packed
  split at packed
  · next large =>
    have fields := packedFields packed
    refine .inr ⟨infIff.mpr ⟨fields.1, fields.2⟩, ?_⟩
    have power : 2 ^ Format.binary64.exponentBits = 2048 := by decide
    omega
  · next small =>
    have power : 2 ^ Format.binary64.exponentBits = 2048 := by decide
    left
    rw [finiteIff]
    split at packed
    · rw [(packedFields packed).1, BitVec.toNat_ofNat]
      omega
    · rw [(packedFields packed).1]
      decide

theorem numberPacked (finite : unpacked.isFinite)
    (packed : x.toBits.toBitVec = UnpackedFloat.pack Format.binary64 unpacked) :
    x.isNaN = false := by
  cases unpacked with
  | notANumber | infinity _ => cases finite
  | zero s => exact nanOfFinite (zeroPacked packed)
  | finite s m e positive =>
      rcases finitePacked packed with finite | ⟨infinite, _⟩
      · exact nanOfFinite finite
      · rw [Bool.eq_false_iff, ne_eq, nanIff]
        exact fun both => both.2 (infIff.mp infinite).2

end Packing

section Closure

variable {a b : UnpackedFloat}

theorem roundClosed (s : Sign) (m : Nat) (e : Int) (accuracy : Accuracy) :
    (roundWithAccuracy Format.binary64 s m e accuracy).isFinite := by
  simp only [roundWithAccuracy]
  split <;> rfl

theorem normalizeClosed (m e : Int) (s : Sign) :
    (UnpackedFloat.normalize Format.binary64 m e s).isFinite := by
  rw [UnpackedFloat.normalize]
  split
  · exact roundClosed _ _ _ _
  · rfl
  · exact roundClosed _ _ _ _

theorem addClosed (left : a.isFinite) (right : b.isFinite) :
    (UnpackedFloat.add Format.binary64 a b).isFinite := by
  cases a with
  | notANumber | infinity _ => cases left
  | zero s =>
      cases b with
      | notANumber | infinity _ => cases right
      | zero t =>
          rw [UnpackedFloat.add]
          split <;> rfl
      | finite _ _ _ _ => rfl
  | finite _ _ _ _ =>
      cases b with
      | notANumber | infinity _ => cases right
      | zero t => rfl
      | finite _ _ _ _ => exact normalizeClosed _ _ _

theorem subClosed (left : a.isFinite) (right : b.isFinite) :
    (UnpackedFloat.sub Format.binary64 a b).isFinite := by
  rw [subParts]
  apply addClosed left
  cases b with
  | notANumber | infinity _ => cases right
  | zero _ | finite _ _ _ _ => rfl

theorem mulClosed (left : a.isFinite) (right : b.isFinite) :
    (UnpackedFloat.mul Format.binary64 a b).isFinite := by
  cases a with
  | notANumber | infinity _ => cases left
  | zero s =>
      cases b with
      | notANumber | infinity _ => cases right
      | zero _ | finite _ _ _ _ => rfl
  | finite _ _ _ _ =>
      cases b with
      | notANumber | infinity _ => cases right
      | zero t => rfl
      | finite _ _ _ _ => exact roundClosed _ _ _ _

theorem divClosed (left : a.isFinite) (right : b.isFinite) (nonzero : ∀ s, b ≠ .zero s) :
    (UnpackedFloat.div Format.binary64 a b).isFinite := by
  cases b with
  | notANumber | infinity _ => cases right
  | zero s => exact absurd rfl (nonzero s)
  | finite _ _ _ _ =>
      cases a with
      | notANumber | infinity _ => cases left
      | zero _ => rfl
      | finite _ _ _ _ => exact roundClosed _ _ _ _

end Closure

section Range

variable {m : Nat} {e : Int} {accuracy : Accuracy} {s : Sign}

theorem shiftMantissa (start : ExtendedMantissa) (k : Nat) :
    (start >>> k).mantissa = start.mantissa / 2 ^ k := by
  show (Nat.repeat ExtendedMantissa.shiftRightOne k start).mantissa = _
  induction k with
  | zero => simp [Nat.repeat]
  | succ k inductionHypothesis =>
      rw [Nat.repeat, ExtendedMantissa.shiftRightOne, inductionHypothesis, Nat.div_div_eq_div_mul,
        pow_succ]

theorem roundedMantissaLe (start : ExtendedMantissa) :
    start.roundedMantissa ≤ start.mantissa + 1 := by
  obtain ⟨mantissa, round, sticky⟩ := start
  cases round <;> cases sticky <;>
    simp only [ExtendedMantissa.roundedMantissa, ExtendedMantissa.accuracy,
      Accuracy.roundToNearestEven] <;> omega

/-- The shift to the target leaves at most 53 digits. -/
theorem shiftTargetLt (m : Nat) (e : Int) (accuracy : Accuracy) :
    (shiftToTargetExponent Format.binary64 m e accuracy).1.mantissa < 2 ^ 53 := by
  have mantissa : (ExtendedMantissa.ofMantissaAndAccuracy m accuracy).mantissa = m := by
    cases accuracy with
    | exact => rfl
    | inexact order => cases order <;> rfl
  simp only [shiftToTargetExponent, shiftToExponent, targetEq, totalExponent, shiftMantissa,
    mantissa]
  rw [Nat.div_lt_iff_lt_mul (by positivity), ← pow_add]
  rcases Nat.eq_zero_or_pos m with rfl | positive
  · positivity
  · apply (Nat.log2_lt positive.ne').mp
    omega

/-- A value below the largest power of two is not rounded out of the range. -/
theorem roundExponent (coarse : e ≤ 970) (small : totalExponent m e ≤ 1023) {t : Sign} {n : Nat}
    {j : Int} {positive : 0 < n}
    (rounded : roundWithAccuracy Format.binary64 s m e accuracy = .finite t n j positive) :
    j ≤ 971 := by
  have first : (shiftToTargetExponent Format.binary64 m e accuracy).2 =
      max e (Format.binary64.targetExponent (totalExponent m e)) := by
    simp only [shiftToTargetExponent, shiftToExponent]
    omega
  have digits := shiftTargetLt m e accuracy
  have carry := roundedMantissaLe (shiftToTargetExponent Format.binary64 m e accuracy).1
  simp only [roundWithAccuracy] at rounded
  generalize (shiftToTargetExponent Format.binary64 m e accuracy).1.roundedMantissa = r at *
  generalize (shiftToTargetExponent Format.binary64 m e accuracy).2 = k at *
  split at rounded
  · cases rounded
  · have second := (UnpackedFloat.finite.inj rounded).2.2
    have bound : r.log2 ≤ 53 := by
      rcases Nat.eq_zero_or_pos r with rfl | positive
      · decide
      · have := (Nat.log2_lt (k := 54) positive.ne').mpr (by omega)
        omega
    rw [← second]
    simp only [shiftToTargetExponent, shiftToExponent, targetEq, totalExponent] at *
    omega

end Range

section Comparison

variable {x : Float}

theorem zeroValue : value 0 = 0 :=
  valueZero.mpr rfl

theorem equalZeroIff (finite : x.isFinite) : x == 0 ↔ value x = 0 := by
  rw [equalIff finite rfl, zeroValue]

theorem ltZeroIff (finite : x.isFinite) : x < 0 ↔ value x < 0 := by
  rw [ltIff finite rfl, zeroValue]

theorem positiveOfNotLe (finite : x.isFinite) (above : ¬x ≤ 0) : 0 < x := by
  rw [leIff finite rfl, not_le] at above
  rw [ltIff rfl finite]
  exact above

/-- Both zeros have the value zero, and no other number has it. -/
theorem zeroCases (zero : value x = 0) : x = 0 ∨ x = -0 := by
  have parts : field x = 0 ∧ fraction x = 0 := by
    have none := valueZero.mp zero
    unfold significand at none
    split at none <;> omega
  have bits := bitsParts x
  rw [parts.1, parts.2] at bits
  rw [← Float.toBits_inj, ← UInt64.toNat_inj, ← Float.toBits_inj, ← UInt64.toNat_inj, bits]
  cases negative x with
  | false => exact .inl rfl
  | true => exact .inr rfl

end Comparison

section Operations

variable {x y : Float}

theorem addNumber (left : x.isFinite) (right : y.isFinite) : (x + y).isNaN = false :=
  numberPacked (addClosed left right) rfl

theorem subNumber (left : x.isFinite) (right : y.isFinite) : (x - y).isNaN = false :=
  numberPacked (subClosed left right) rfl

theorem mulNumber (left : x.isFinite) (right : y.isFinite) : (x * y).isNaN = false :=
  numberPacked (mulClosed left right) rfl

theorem divNumber (left : x.isFinite) (right : y.isFinite) (nonzero : ¬y == 0) :
    (x / y).isNaN = false := by
  refine numberPacked (divClosed left right fun s zero => nonzero ?_) rfl
  rw [equalZeroIff right]
  rcases partsCases right with ⟨_, _, nothing⟩ | ⟨_, other, _⟩ | ⟨_, other, _⟩
  · exact nothing
  · cases zero.symm.trans other
  · cases zero.symm.trans other

/-- Parts with an exponent in the range are packed as a finite number. -/
theorem finiteOfExponent (unpacked : UnpackedFloat) (finite : unpacked.isFinite)
    (range : ∀ s m e positive, unpacked = .finite s m e positive → e ≤ 971)
    (packed : x.toBits.toBitVec = UnpackedFloat.pack Format.binary64 unpacked) : x.isFinite := by
  cases unpacked with
  | notANumber | infinity _ => cases finite
  | zero s => exact zeroPacked packed
  | finite s m e positive =>
      have inside := range s m e positive rfl
      rcases finitePacked packed with finite | ⟨_, beyond⟩
      · exact finite
      · omega

theorem finiteParts (finite : x.isFinite) : (∃ s, parts x = .zero s) ∨
    ∃ positive, parts x = .finite (sign x) (significand x) (exponent x) positive := by
  rcases Nat.eq_zero_or_pos (significand x) with zero | positive
  · exact .inl ⟨_, partsZero zero⟩
  · exact .inr ⟨positive, partsFinite finite positive⟩

/-- The exponents of two factors show that their product stays in the range. -/
theorem mulFinite (left : x.isFinite) (right : y.isFinite)
    (small : exponent x + exponent y ≤ 917) : (x * y).isFinite := by
  refine finiteOfExponent (UnpackedFloat.mul Format.binary64 (parts x) (parts y))
    (mulClosed left right) (fun s m e positive product => ?_) rfl
  rcases finiteParts left with ⟨_, zero⟩ | ⟨positiveLeft, partsLeft⟩
  · rcases finiteParts right with ⟨_, other⟩ | ⟨_, other⟩ <;> rw [zero, other] at product <;>
      cases product
  · rcases finiteParts right with ⟨_, zero⟩ | ⟨positiveRight, partsRight⟩
    · rw [partsLeft, zero] at product
      cases product
    · rw [partsLeft, partsRight] at product
      have digits : (significand x * significand y).log2 < 106 := by
        rw [Nat.log2_lt (Nat.mul_pos positiveLeft positiveRight).ne', pow_add 2 53 53]
        exact Nat.mul_lt_mul'' (significandRange x) (significandRange y)
      refine roundExponent (by omega) ?_ product
      rw [totalExponent]
      omega

theorem exponentGreatest (finite : x.isFinite) : exponent x ≤ 971 := by
  have range := fieldRange x
  have field := finiteIff.mp finite
  unfold exponent
  split <;> omega

/-- The root of a number has half as many digits before the point. -/
theorem sqrtExponent {m : Nat} {e : Int} (digits : m < 2 ^ 53) (range : e ≤ 971) :
    (sqrtCore Format.binary64 m e).2.1 ≤ 970 ∧
      totalExponent (sqrtCore Format.binary64 m e).1 (sqrtCore Format.binary64 m e).2.1 ≤ 1023 := by
  simp only [sqrtCore]
  have half : min (e.ediv 2) (Format.binary64.targetExponent ((totalExponent m e + 1).ediv 2)) ≤
    e / 2 := min_le_left _ _
  generalize min (e.ediv 2) (Format.binary64.targetExponent ((totalExponent m e + 1).ediv 2)) = t
    at *
  refine ⟨by omega, ?_⟩
  obtain ⟨k, amount⟩ : ∃ k : Nat, e - 2 * t = k := ⟨(e - 2 * t).toNat, by omega⟩
  rw [amount, Int.toNat_natCast, Nat.shiftLeft_eq, totalExponent]
  have square : (m * 2 ^ k).sqrt * (m * 2 ^ k).sqrt ≤ m * 2 ^ k := Nat.sqrt_le _
  generalize (m * 2 ^ k).sqrt = root at *
  have small : 2 * root.log2 < 53 + k := by
    rcases Nat.eq_zero_or_pos root with rfl | positive
    · rw [Nat.log2_zero]
      omega
    · have power := Nat.log2_self_le positive.ne'
      apply (Nat.pow_lt_pow_iff_right (show 1 < 2 by decide)).mp
      calc 2 ^ (2 * root.log2) = 2 ^ root.log2 * 2 ^ root.log2 := by rw [two_mul, pow_add]
        _ ≤ root * root := Nat.mul_le_mul power power
        _ ≤ m * 2 ^ k := square
        _ < 2 ^ 53 * 2 ^ k := Nat.mul_lt_mul_of_pos_right digits (by positivity)
        _ = 2 ^ (53 + k) := (pow_add 2 53 k).symm
  omega

/-- Only a number below zero has no root. -/
theorem sqrtFinite (finite : x.isFinite) (notBelow : ¬x < 0) : x.sqrt.isFinite := by
  have closed : (UnpackedFloat.sqrt Format.binary64 (parts x)).isFinite ∧
      ∀ s m e positive, UnpackedFloat.sqrt Format.binary64 (parts x) = .finite s m e positive →
        e ≤ 971 := by
    rcases partsCases finite with
      ⟨s, zero, _⟩ | ⟨positive, partsX, _⟩ | ⟨positive, _, below, above⟩
    · rw [zero]
      exact ⟨rfl, fun _ _ _ _ root => by cases root⟩
    · rw [partsX]
      obtain ⟨coarse, small⟩ := sqrtExponent (significandRange x) (exponentGreatest finite)
      exact ⟨roundClosed _ _ _ _, fun _ _ _ _ root => roundExponent coarse small root⟩
    · rw [ltZeroIff finite, below] at notBelow
      exact absurd (neg_neg_of_pos above) notBelow
  exact finiteOfExponent _ closed.1 closed.2 rfl

theorem absFinite (finite : x.isFinite) : x.abs.isFinite := by
  have closed : (parts x).abs.isFinite ∧
      ∀ s m e positive, (parts x).abs = .finite s m e positive → e ≤ 971 := by
    rcases finiteParts finite with ⟨s, zero⟩ | ⟨positive, partsX⟩
    · rw [zero]
      exact ⟨rfl, fun _ _ _ _ other => by cases other⟩
    · rw [partsX]
      refine ⟨rfl, fun _ _ _ _ same => ?_⟩
      cases same
      exact exponentGreatest finite
  exact finiteOfExponent _ closed.1 closed.2 rfl

end Operations

end Calculator.Binary64
