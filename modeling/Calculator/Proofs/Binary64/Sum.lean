/-
This file proves that a sum above zero is rounded to the nearest number.
-/

import Calculator.Proofs.Binary64.Closure

namespace Calculator.Binary64

open Rational Float.Model Float.Model.UnpackedFloat

section Residual

variable {start : ExtendedMantissa} {v : Rat}

/-- The round bit is the half above the mantissa, and the sticky bit tells whether a part below the
half is left. -/
def Shows (start : ExtendedMantissa) (v : Rat) : Prop :=
  ∃ left : Rat, v = start.mantissa + (if start.roundBit then 1 / 2 else 0) + left ∧
    0 ≤ left ∧ left < 1 / 2 ∧ (start.stickyBit = false ↔ left = 0)

theorem showsInteger (m : Nat) : Shows ⟨m, false, false⟩ m :=
  ⟨0, by simp, le_refl 0, by norm_num, by simp⟩

/-- One shift halves the value. The last digit becomes the round bit, and the old round bit goes to
the part that is left. -/
theorem Shows.shiftOne (shows : Shows start v) : Shows start.shiftRightOne (v / 2) := by
  obtain ⟨left, value, low, high, sticky⟩ := shows
  have halves : (start.mantissa : Rat) / 2 =
      (start.mantissa / 2 : Nat) + (if start.mantissa % 2 != 0 then 1 / 2 else 0) := by
    obtain ⟨half, even | odd⟩ : ∃ half, start.mantissa = 2 * half ∨
        start.mantissa = 2 * half + 1 := ⟨start.mantissa / 2, by omega⟩
    · have digits : start.mantissa / 2 = half ∧ (start.mantissa % 2 != 0) = false := by simp [even]
      rw [digits.1, digits.2, even]
      push_cast
      norm_num
    · have digits : start.mantissa / 2 = half ∧ (start.mantissa % 2 != 0) = true := by
        simp only [odd, bne_iff_ne]
        omega
      rw [digits.1, digits.2, odd, if_pos rfl]
      push_cast
      ring
  refine ⟨(if start.roundBit then 1 / 4 else 0) + left / 2, ?_, ?_, ?_, ?_⟩
  · show v / 2 = (start.mantissa / 2 : Nat) + (if start.mantissa % 2 != 0 then 1 / 2 else 0) + _
    rw [value, add_div, add_div, halves]
    cases start.roundBit
    · simp
    · simp only [if_true]
      ring
  · split <;> linarith
  · split <;> linarith
  · simp only [ExtendedMantissa.shiftRightOne, Bool.or_eq_false_iff, sticky]
    cases start.roundBit with
    | false => simp
    | true =>
        simp only [if_true, Bool.true_eq_false, false_and, false_iff]
        linarith

/-- A shift divides the value by a power of two. -/
theorem Shows.shift (shows : Shows start v) (k : Nat) : Shows (start >>> k) (v / 2 ^ k) := by
  show Shows (Nat.repeat ExtendedMantissa.shiftRightOne k start) _
  induction k with
  | zero => simpa [Nat.repeat] using shows
  | succ k inductionHypothesis =>
      rw [Nat.repeat, pow_succ, ← div_div]
      exact inductionHypothesis.shiftOne

/-- The residual bits tell on which side of the tie the value lies. -/
theorem Shows.rounded (shows : Shows start v) : roundHalfEven v = start.roundedMantissa := by
  obtain ⟨left, value, low, high, sticky⟩ := shows
  obtain ⟨mantissa, round, more⟩ := start
  apply roundEq
  cases round with
  | false =>
      have below : |v - (mantissa : Int)| = left := by
        rw [value]
        simp [abs_of_nonneg low]
      have same : (⟨mantissa, false, more⟩ : ExtendedMantissa).roundedMantissa = mantissa := by
        cases more <;> rfl
      rw [same, NearestEven, below]
      exact ⟨high.le, fun tie => absurd tie high.ne⟩
  | true =>
      cases more with
      | false =>
          have tie : v = mantissa + 1 / 2 := by
            rw [value, sticky.mp rfl]
            simp
          have same : (⟨mantissa, true, false⟩ : ExtendedMantissa).roundedMantissa =
            mantissa + mantissa % 2 := rfl
          rw [same, NearestEven, tie]
          rcases Nat.mod_two_eq_zero_or_one mantissa with even | odd
          · rw [even]
            exact ⟨by norm_num, fun _ => by omega⟩
          · rw [odd]
            refine ⟨?_, fun _ => by omega⟩
            push_cast
            norm_num
      | true =>
          have positive : 0 < left := lt_of_le_of_ne low fun zero => by simp [← zero] at sticky
          have above : |v - ((mantissa + 1 : Nat) : Int)| = 1 / 2 - left := by
            rw [value, if_pos rfl]
            push_cast
            rw [abs_of_nonpos (by linarith)]
            ring
          have same : (⟨mantissa, true, true⟩ : ExtendedMantissa).roundedMantissa =
            mantissa + 1 := rfl
          rw [same, NearestEven, above]
          exact ⟨by linarith, fun tie => absurd tie (by linarith)⟩

end Residual

section Rounding

variable {q : Rat} {m : Nat} {e : Int}

/-- The last digit that the format keeps is that of the spacing. -/
theorem targetSpacing (positive : 0 < m) :
    Format.binary64.targetExponent (totalExponent m e) = spacing (m * 2 ^ e) := by
  have scale : (0 : Rat) < 2 ^ e := by positivity
  obtain ⟨low, high⟩ := (Nat.log2_eq_iff positive.ne').mp rfl
  have decade : InDecade 2 (m * 2 ^ e) (m.log2 + e) := by
    constructor
    · have below : ((2 : Nat) : Rat) ^ (m.log2 : Int) ≤ m := by exact_mod_cast low
      rw [zpow_add₀ (by norm_num)]
      exact mul_le_mul_of_nonneg_right below scale.le
    · have above : (m : Rat) < ((2 : Nat) : Rat) ^ ((m.log2 : Int) + 1) := by exact_mod_cast high
      rw [add_right_comm, zpow_add₀ (by norm_num)]
      exact mul_lt_mul_of_pos_right above scale
  have order : order 2 (m * 2 ^ e) = m.log2 + e := orderFromEq (by decide) decade _
  rw [targetEq, totalExponent]
  simp only [spacing, order]
  split <;> omega

/-- The nearest number has no finer digits than the spacing. -/
theorem spacingLeExponent (positive : 0 < q) (inside : q < limit)
    (present : 0 < significand (nearest q)) : spacing q ≤ exponent (nearest q) := by
  rcases (stepsBounds positive).2.2 with least | many
  · rw [least]
    exact exponentLeast _
  · have nonzero : 0 < magnitude (nearest q) := magnitudePos.mpr present.ne'
    have size := nearestMagnitude positive ((nearestBitsLimit positive).mpr inside)
    have large : (2 : Rat) ^ (52 + spacing q) ≤ magnitude (nearest q) := by
      have count : (2 : Rat) ^ (52 : Int) ≤ steps q := by exact_mod_cast many
      rw [size, zpow_add₀ (by norm_num)]
      exact mul_le_mul_of_nonneg_right count (by positivity)
    have digits := leOrder large
    have wide := orderLeSpacing (magnitude (nearest q))
    rw [spacingMagnitude nonzero] at wide
    omega

/-- The digits below the spacing are rounded away. A carry needs one more shift, by a zero. -/
theorem accurateNearest (positive : 0 < m) (fine : e ≤ spacing (m * 2 ^ e))
    (inside : m * 2 ^ e < limit) :
    roundWithAccuracy Format.binary64 .positive m e .exact = parts (nearest (m * 2 ^ e)) := by
  have above : (0 : Rat) < m * 2 ^ e := by positivity
  have target := targetSpacing (e := e) positive
  have counted : roundHalfEven (m * 2 ^ e * 2 ^ (-spacing (m * 2 ^ e))) = steps (m * 2 ^ e) := rfl
  have size := nearestMagnitude above ((nearestBitsLimit above).mpr inside)
  have finite := (nearestFinite above).mpr ((nearestBitsLimit above).mpr inside)
  have plus : sign (nearest (m * 2 ^ e)) = .positive := by
    rw [sign, nearestNegative above, if_neg Bool.false_ne_true]
  have coarse := spacingLeExponent above inside
  generalize nearest (m * 2 ^ e) = z at *
  generalize spacing (m * 2 ^ e) = t at *
  obtain ⟨k, rfl⟩ : ∃ k : Nat, t = e + k := ⟨(t - e).toNat, by omega⟩
  have scaled : (m : Rat) * 2 ^ e * 2 ^ (-(e + (k : Int))) = m / 2 ^ k := by
    rw [neg_add, zpow_add₀ (by norm_num), ← mul_assoc,
      powerCancel (by norm_num) _ (add_neg_cancel e), zpow_neg, zpow_natCast, div_eq_mul_inv]
  have rounded := ((showsInteger m).shift k).rounded
  obtain ⟨n, mantissa⟩ :
      ∃ n, ((⟨m, false, false⟩ : ExtendedMantissa) >>> k).roundedMantissa = n := ⟨_, rfl⟩
  rw [← scaled, counted, mantissa] at rounded
  rw [rounded, Int.cast_natCast] at size
  have first : shiftToTargetExponent Format.binary64 m e .exact =
      ((⟨m, false, false⟩ : ExtendedMantissa) >>> k, e + k) := by
    have amount : (e + (k : Int) - e).toNat = k := by omega
    rw [shiftToTargetExponent, target, shiftToExponent, amount]
    rfl
  simp only [roundWithAccuracy, first, mantissa]
  rcases Nat.eq_zero_or_pos (significand z) with zero | present
  · have nothing : n = 0 := by
      rw [magnitude, zero, Nat.cast_zero, zero_mul] at size
      have scale : (2 : Rat) ^ (e + (k : Int)) ≠ 0 := by positivity
      exact_mod_cast (mul_eq_zero.mp size.symm).resolve_right scale
    have second : (shiftToTargetExponent Format.binary64 0 (e + k) .exact).1.mantissa = 0 := by
      simp only [shiftToTargetExponent, shiftToExponent, shiftMantissa,
        ExtendedMantissa.ofMantissaAndAccuracy, Nat.zero_div]
    simp only [nothing, second, dite_true, partsZero zero, plus]
  · obtain ⟨j, shifted, digits⟩ := shiftOfLe size.symm (coarse present)
    obtain rfl : e = exponent z - j - k := by omega
    have second := shiftTarget present j
    rw [← digits] at second
    simp only [sub_add_cancel, second, present.ne', dite_false, partsFinite finite present, plus]

/-- A positive multiple of a power of two is rounded to its nearest number. -/
theorem roundNearestParts (positive : 0 < m) (inside : m * 2 ^ e < limit) :
    UnpackedFloat.round Format.binary64 .positive m e = parts (nearest (m * 2 ^ e)) := by
  rw [UnpackedFloat.round, targetSpacing positive]
  rcases le_total e (spacing (m * 2 ^ e)) with fine | coarse
  · have amount : (e - spacing (m * 2 ^ e)).toNat = 0 := by omega
    have kept : decreaseExponent m e (spacing (m * 2 ^ e)) = (m, e) := by
      simp [decreaseExponent, amount]
    rw [kept]
    exact accurateNearest positive fine inside
  · have same := decreaseValue .positive m coarse
    simp only [Sign.apply, Int.cast_natCast] at same
    have lowered : decreaseExponent m e (spacing (m * 2 ^ e)) =
        (m <<< (e - spacing (m * 2 ^ e)).toNat, spacing (m * 2 ^ e)) := by
      rw [decreaseExponent]
      congr 1
      omega
    have above : 0 < m <<< (e - spacing (m * 2 ^ e)).toNat := by
      rw [Nat.shiftLeft_eq]
      positivity
    have accurate := accurateNearest above (e := spacing (m * 2 ^ e)) (by rw [same])
      (by rwa [same])
    rw [lowered]
    simp only
    rw [accurate, same]

/-- An integral multiple of a power of two keeps its value under the normalisation. -/
theorem normalizeNearest {n : Int} (same : (n : Rat) * 2 ^ e = q) (positive : 0 < q)
    (inside : q < limit) :
    UnpackedFloat.normalize Format.binary64 n e .positive = parts (nearest q) := by
  have scale : (0 : Rat) < 2 ^ e := by positivity
  have above : 0 < n := by
    rw [← same, mul_pos_iff_of_pos_right scale] at positive
    exact_mod_cast positive
  have order : compare n 0 = .gt := compare_gt_iff_gt.mpr above
  obtain ⟨m, rfl⟩ : ∃ m : Nat, n = m := ⟨n.toNat, by omega⟩
  rw [Int.cast_natCast] at same
  rw [UnpackedFloat.normalize, order]
  simp only [Int.toNat_natCast]
  rw [roundNearestParts (by omega) (by rwa [same]), same]

end Rounding

section Addition

variable {x y : Float}

/-- A number above zero is nearest to its own value. -/
theorem nearestOwn (finite : x.isFinite) (positive : 0 < value x) : nearest (value x) = x := by
  have plus : negative x = false := by
    have present : significand x ≠ 0 := fun zero => positive.ne' (valueZero.mpr zero)
    rw [Bool.eq_false_iff, ne_eq, ← valueNeg present]
    exact not_lt.mpr positive.le
  rw [valuePlus plus, nearestSelf plus finite]

theorem addParts (finiteLeft : x.isFinite) (finiteRight : y.isFinite)
    (positive : 0 < value x + value y) (inside : value x + value y < limit) :
    UnpackedFloat.add Format.binary64 (parts x) (parts y) =
      parts (nearest (value x + value y)) := by
  rcases Nat.eq_zero_or_pos (significand x) with zeroLeft | positiveLeft
  · rw [valueZero.mpr zeroLeft, zero_add] at positive ⊢
    rw [nearestOwn finiteRight positive, partsZero zeroLeft]
    have positiveRight : 0 < significand y :=
      Nat.pos_of_ne_zero fun zero => positive.ne' (valueZero.mpr zero)
    rw [partsFinite finiteRight positiveRight]
    rfl
  · rcases Nat.eq_zero_or_pos (significand y) with zeroRight | positiveRight
    · rw [valueZero.mpr zeroRight, add_zero] at positive ⊢
      rw [nearestOwn finiteLeft positive, partsZero zeroRight, partsFinite finiteLeft positiveLeft]
      rfl
    · rw [partsFinite finiteLeft positiveLeft, partsFinite finiteRight positiveRight]
      apply normalizeNearest _ positive inside
      rw [Int.cast_add, add_mul, decreaseValue _ _ (min_le_left _ _),
        decreaseValue _ _ (min_le_right _ _), valueSign x, valueSign y]

/-- A sum above zero is rounded to the nearest number. -/
theorem addNearest (finiteLeft : x.isFinite) (finiteRight : y.isFinite)
    (positive : 0 < value x + value y) (inside : value x + value y < limit) :
    x + y = nearest (value x + value y) := by
  have finite := (nearestFinite positive).mpr ((nearestBitsLimit positive).mpr inside)
  have packed : UnpackedFloat.pack Format.binary64 (parts (nearest (value x + value y))) =
    (nearest (value x + value y)).toBits.toBitVec := packUnpack finite
  rw [← addParts finiteLeft finiteRight positive inside] at packed
  exact Float.toBits_inj.mp (UInt64.toBitVec_inj.mp packed)

end Addition

end Calculator.Binary64
