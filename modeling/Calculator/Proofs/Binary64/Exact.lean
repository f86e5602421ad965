/-
This file proves that a sum, a difference or a product is exact if a finite number has its value.
-/

import Calculator.Proofs.Binary64.Closest

namespace Calculator.Binary64

open Float.Model Float.Model.UnpackedFloat

section Shift

variable {m n : Nat} {e j : Int}

theorem log2Shift (positive : 0 < m) (k : Nat) : (m * 2 ^ k).log2 = m.log2 + k := by
  have present : m ≠ 0 := Nat.pos_iff_ne_zero.mp positive
  rw [Nat.log2_eq_iff (by positivity)]
  obtain ⟨low, high⟩ := (Nat.log2_eq_iff present).mp rfl
  have scale : 0 < 2 ^ k := by positivity
  rw [Nat.add_right_comm, pow_add, pow_add]
  exact ⟨Nat.mul_le_mul_right _ low, Nat.mul_lt_mul_of_pos_right high scale⟩

/-- The coarser one of two equal multiples of powers has the smaller factor. -/
theorem shiftOfLe (same : (m : Rat) * 2 ^ e = n * 2 ^ j) (fine : e ≤ j) :
    ∃ k : Nat, j = e + k ∧ m = n * 2 ^ k := by
  obtain ⟨k, apart⟩ : ∃ k : Nat, j = e + k := ⟨(j - e).toNat, by omega⟩
  refine ⟨k, apart, ?_⟩
  have scale : (2 : Rat) ^ e ≠ 0 := by positivity
  rw [apart, zpow_add₀ (by norm_num), mul_comm (2 ^ e), ← mul_assoc, zpow_natCast] at same
  exact_mod_cast mul_right_cancel₀ scale same

/-- The exponent of the first digit follows from the value. -/
theorem totalExponentEq (positive : 0 < n) (same : (m : Rat) * 2 ^ e = n * 2 ^ j) :
    totalExponent m e = totalExponent n j := by
  have shift {n : Nat} {e : Int} (positive : 0 < n) (k : Nat) :
      totalExponent (n * 2 ^ k) e = totalExponent n (e + k) := by
    rw [totalExponent, totalExponent, log2Shift positive]
    push_cast
    ring
  rcases le_total e j with fine | coarse
  · obtain ⟨k, rfl, rfl⟩ := shiftOfLe same fine
    exact shift positive k
  · obtain ⟨k, rfl, rfl⟩ := shiftOfLe same.symm coarse
    have other : 0 < m := Nat.pos_of_mul_pos_right positive
    exact (shift other k).symm

/-- A shift by zeros leaves no residue. -/
theorem shiftZeros (m k : Nat) :
    (⟨m * 2 ^ k, false, false⟩ : ExtendedMantissa) >>> k = ⟨m, false, false⟩ := by
  show Nat.repeat ExtendedMantissa.shiftRightOne k _ = _
  induction k generalizing m with
  | zero => simp [Nat.repeat]
  | succ k inductionHypothesis =>
      rw [pow_succ', ← mul_assoc, Nat.repeat, inductionHypothesis]
      simp [ExtendedMantissa.shiftRightOne]

end Shift

section Parts

variable {x y : Float}

/-- These are the sign, the significand and the exponent of a number. -/
def parts (x : Float) : UnpackedFloat :=
  UnpackedFloat.unpack Format.binary64 x.toBits.toBitVec

def sign (x : Float) : Sign :=
  if negative x then .negative else .positive

theorem signParts (x : Float) :
    Sign.ofBitVec (@unpackSign Format.binary64 x.toBits.toBitVec) = sign x := by
  cases plus : negative x with
  | false =>
      rw [unpackPlus plus, sign, plus]
      rfl
  | true =>
      have bit : @unpackSign Format.binary64 x.toBits.toBitVec = 1#1 := by
        apply BitVec.eq_of_toNat_eq
        have range : x.toBits.toNat < 0x10000000000000000 := x.toBits.toBitVec.isLt
        have large : 0x8000000000000000 ≤ x.toBits.toNat := by simpa [negative] using plus
        rw [unpackSignNat]
        show x.toBits.toNat / 0x8000000000000000 = 1
        omega
      rw [bit, sign, plus]
      rfl

theorem partsZero (zero : significand x = 0) : parts x = .zero (sign x) := by
  have least : field x = 0 ∧ fraction x = 0 := by
    unfold significand at zero
    split at zero
    · next subnormal => exact ⟨subnormal, zero⟩
    · omega
  have nothing : @unpackExponent Format.binary64 x.toBits.toBitVec = 0#11 := by
    apply BitVec.eq_of_toNat_eq
    rw [unpackField, least.1]
    rfl
  have whole := (unpackWhole x).mpr least.2
  simp only [parts, UnpackedFloat.unpack, nothing, whole, signParts]
  rfl

theorem partsFinite (finite : x.isFinite) (positive : 0 < significand x) :
    parts x = .finite (sign x) (significand x) (exponent x) positive := by
  have regular := mt (unpackInfinite x).mp (finiteIff.mp finite)
  have field := unpackField x
  have fraction := unpackFraction x
  have subnormal : @unpackExponent Format.binary64 x.toBits.toBitVec = 0#11 ↔
      Binary64.field x = 0 := by
    rw [← BitVec.toNat_inj, field]
    rfl
  by_cases least : Binary64.field x = 0
  · have present : @unpackMantissa Format.binary64 x.toBits.toBitVec ≠ 0#52 := by
      rw [ne_eq, unpackWhole]
      simpa [significand, least] using positive.ne'
    have regular : 0#11 ≠ -1#11 := by decide
    simp only [parts, UnpackedFloat.unpack, subnormal.mpr least, regular, present, signParts,
      if_true, if_false, dite_false, UnpackedFloat.finite.injEq]
    refine ⟨trivial, ?_, ?_⟩
    · rw [fraction, significand, if_pos least]
    · rw [exponent, if_pos least]
      decide
  · simp only [parts, UnpackedFloat.unpack, regular, mt subnormal.mp least, signParts, if_false,
      UnpackedFloat.finite.injEq]
    refine ⟨trivial, ?_, ?_⟩
    · have small : (@unpackMantissa Format.binary64 x.toBits.toBitVec).toNat < 2 ^ 52 :=
        BitVec.isLt _
      rw [significand, if_neg least, BitVec.toNat_append, ← Nat.shiftLeft_add_eq_or_of_lt small,
        fraction]
      rfl
    · have bias : (Format.binary64.exponentBias : Int) + (52 : Nat) = 1075 := by decide
      rw [exponent, if_neg least, field, bias]

/-- A number is its significand with its sign and its exponent. -/
theorem valueSign (x : Float) :
    value x = (sign x).apply (significand x) * 2 ^ exponent x := by
  unfold value sign
  split
  · simp [Sign.apply, magnitude]
  · simp [Sign.apply, magnitude]

/-- A format keeps 53 digits, but none below the least exponent. -/
theorem targetEq (total : Int) :
    Format.binary64.targetExponent total = max (total - 53) (-1074) := rfl

theorem significandNormal (normal : field x ≠ 0) : 2 ^ 52 ≤ significand x := by
  rw [significand, if_neg normal]
  omega

theorem exponentSubnormal (subnormal : field x = 0) : exponent x = -1074 := by
  simp [exponent, subnormal]

/-- The exponent of a number is that of the last digit that the format keeps. -/
theorem targetParts (positive : 0 < significand x) :
    Format.binary64.targetExponent (totalExponent (significand x) (exponent x)) = exponent x := by
  have range : significand x < 2 ^ 53 := significandRange x
  have digits := (Nat.log2_lt positive.ne').mpr range
  rw [targetEq, totalExponent]
  by_cases subnormal : field x = 0
  · have least := exponentSubnormal subnormal
    omega
  · have normal := (Nat.le_log2 positive.ne').mpr (significandNormal subnormal)
    have least := exponentLeast x
    omega

end Parts

section Rounding

variable {z : Float} {m : Nat} {e : Int}

/-- Zeros below the exponent of a number are shifted out. -/
theorem shiftTarget (positive : 0 < significand z) (k : Nat) :
    shiftToTargetExponent Format.binary64 (significand z * 2 ^ k) (exponent z - k) .exact =
      (⟨significand z, false, false⟩, exponent z) := by
  have same : ((significand z * 2 ^ k : Nat) : Rat) * 2 ^ (exponent z - k) =
      significand z * 2 ^ exponent z := by
    push_cast
    rw [mul_assoc, ← zpow_natCast, Rational.powerMul (by norm_num) (add_sub_cancel _ _)]
  have amount : (exponent z - (exponent z - k)).toNat = k := by omega
  rw [shiftToTargetExponent, totalExponentEq positive same, targetParts positive, shiftToExponent,
    amount, sub_add_cancel]
  exact congrArg (·, exponent z) (shiftZeros _ k)

/-- No digit is lost if the digits below the exponent of a number are zeros. -/
theorem accurateExact (finite : z.isFinite) (positive : 0 < significand z)
    (same : (m : Rat) * 2 ^ e = magnitude z) (fine : e ≤ exponent z) :
    roundWithAccuracy Format.binary64 (sign z) m e .exact = parts z := by
  obtain ⟨k, shifted, rfl⟩ := shiftOfLe same fine
  obtain rfl : e = exponent z - k := by omega
  have again : shiftToTargetExponent Format.binary64 (significand z) (exponent z) .exact =
      (⟨significand z, false, false⟩, exponent z) := by
    simpa using shiftTarget positive 0
  have rounded : (⟨significand z, false, false⟩ : ExtendedMantissa).roundedMantissa =
      significand z := rfl
  -- The second shift has nothing to do, because the rounding did not carry.
  simp only [roundWithAccuracy, shiftTarget positive, rounded, again, positive.ne', dite_false,
    partsFinite finite positive]

/-- Any multiple of a power with the value of a number is rounded to it. -/
theorem roundExact (finite : z.isFinite) (positive : 0 < significand z)
    (same : (m : Rat) * 2 ^ e = magnitude z) :
    UnpackedFloat.round Format.binary64 (sign z) m e = parts z := by
  have target := targetParts positive
  rw [UnpackedFloat.round, totalExponentEq positive same, target]
  rcases le_total e (exponent z) with fine | coarse
  · have amount : (e - exponent z).toNat = 0 := by omega
    have kept : decreaseExponent m e (exponent z) = (m, e) := by simp [decreaseExponent, amount]
    rw [kept]
    exact accurateExact finite positive same fine
  · obtain ⟨k, shifted, digits⟩ := shiftOfLe same.symm coarse
    have amount : (e - exponent z).toNat = k := by omega
    have lowered : decreaseExponent m e (exponent z) = (significand z, exponent z) := by
      rw [decreaseExponent, amount, Nat.shiftLeft_eq, digits, shifted, add_sub_cancel_right]
    rw [lowered]
    exact accurateExact finite positive rfl le_rfl

/-- The sign and the magnitude of a number follow from its value. -/
theorem signOfValue {s : Sign} {m : Nat} {e : Int} (positive : 0 < m)
    (same : (s.apply m : Rat) * 2 ^ e = value z) :
    0 < significand z ∧ sign z = s ∧ (m : Rat) * 2 ^ e = magnitude z := by
  have size : (0 : Rat) < m * 2 ^ e := by positivity
  have magnitudes : (m : Rat) * 2 ^ e = magnitude z := by
    rw [← absValue, ← same]
    cases s <;> simp [Sign.apply, abs_mul]
  have nonzero : significand z ≠ 0 := magnitudePos.mp (magnitudes ▸ size)
  refine ⟨Nat.pos_of_ne_zero nonzero, ?_, magnitudes⟩
  have minus := valueNeg nonzero
  rw [← same] at minus
  cases s with
  | negative =>
      have below : ((Sign.negative.apply m : Int) : Rat) * 2 ^ e < 0 := by
        simpa [Sign.apply] using size
      rw [sign, minus.mp below, if_pos rfl]
  | positive =>
      have above : ¬((Sign.positive.apply m : Int) : Rat) * 2 ^ e < 0 := by
        simpa [Sign.apply] using size.le
      rw [sign, if_neg (mt minus.mpr above)]

end Rounding

section Operations

variable {x y z : Float}

/-- The parts of a finite number with this value. -/
def Reaches (unpacked : UnpackedFloat) (value : Rat) : Prop :=
  ∃ x : Float, x.isFinite ∧ Binary64.value x = value ∧ parts x = unpacked

theorem reachesParts (finite : x.isFinite) : Reaches (parts x) (value x) :=
  ⟨x, finite, rfl, rfl⟩

theorem reachesZero (s : Sign) : Reaches (.zero s) 0 := by
  cases s with
  | positive =>
      have minus : negative (Float.ofBits 0) = false := by decide
      refine ⟨Float.ofBits 0, by decide, valueZero.mpr (by decide), ?_⟩
      rw [partsZero (by decide), sign, minus]
      rfl
  | negative =>
      have minus : negative (Float.ofBits 0x8000000000000000) = true := by decide
      refine ⟨Float.ofBits 0x8000000000000000, by decide, valueZero.mpr (by decide), ?_⟩
      rw [partsZero (by decide), sign, minus]
      rfl

/-- A rounded multiple of a power is exact if a finite number has its value. -/
theorem reachesRound {s : Sign} {m : Nat} {e : Int} (positive : 0 < m) (finite : z.isFinite)
    (same : (s.apply m : Rat) * 2 ^ e = value z) :
    Reaches (UnpackedFloat.round Format.binary64 s m e) (value z) := by
  obtain ⟨present, rfl, magnitudes⟩ := signOfValue positive same
  rw [roundExact finite present magnitudes]
  exact reachesParts finite

/-- The sign of a multiple becomes the sign of the number. -/
theorem reachesNormal {m e : Int} (finite : z.isFinite) (same : (m : Rat) * 2 ^ e = value z) :
    Reaches (UnpackedFloat.normalize Format.binary64 m e .positive) (value z) := by
  rcases lt_trichotomy m 0 with below | rfl | above
  · have order : compare m 0 = .lt := compare_lt_iff_lt.mpr below
    have size : Sign.negative.apply (-m).toNat = m := by
      simp only [Sign.apply]
      omega
    rw [UnpackedFloat.normalize, order]
    exact reachesRound (by omega) finite (by rwa [size])
  · have order : compare (0 : Int) 0 = .eq := rfl
    have zero : value z = 0 := by simpa using same.symm
    rw [UnpackedFloat.normalize, order, zero]
    exact reachesZero _
  · have order : compare m 0 = .gt := compare_gt_iff_gt.mpr above
    have size : Sign.positive.apply m.toNat = m := by
      simp only [Sign.apply]
      omega
    rw [UnpackedFloat.normalize, order]
    exact reachesRound (by omega) finite (by rwa [size])

/-- A lower exponent keeps the value. -/
theorem decreaseValue (s : Sign) (m : Nat) {e target : Int} (fine : target ≤ e) :
    (s.apply (m <<< (e - target).toNat : Nat) : Rat) * 2 ^ target = s.apply m * 2 ^ e := by
  obtain ⟨k, rfl⟩ : ∃ k : Nat, e = target + k := ⟨(e - target).toNat, by omega⟩
  have amount : (target + k - target).toNat = k := by omega
  have power : (2 : Rat) ^ (target + k) = 2 ^ k * 2 ^ target := by
    rw [add_comm, zpow_add₀ (by norm_num), zpow_natCast]
  rw [amount, Nat.shiftLeft_eq, power, ← mul_assoc]
  cases s <;> simp [Sign.apply]

/-- The exact sum of two numbers is a multiple of the finer power. -/
theorem reachesAdd (finiteLeft : x.isFinite) (finiteRight : y.isFinite) (finite : z.isFinite)
    (exact : value z = value x + value y) :
    Reaches (UnpackedFloat.add Format.binary64 (parts x) (parts y)) (value z) := by
  rcases Nat.eq_zero_or_pos (significand x) with zeroLeft | positiveLeft
  · rw [valueZero.mpr zeroLeft, zero_add] at exact
    rw [partsZero zeroLeft, exact]
    rcases Nat.eq_zero_or_pos (significand y) with zeroRight | positiveRight
    · rw [partsZero zeroRight, valueZero.mpr zeroRight, UnpackedFloat.add]
      split <;> exact reachesZero _
    · have same := partsFinite finiteRight positiveRight
      rw [same]
      exact ⟨y, finiteRight, rfl, same⟩
  · have same := partsFinite finiteLeft positiveLeft
    rcases Nat.eq_zero_or_pos (significand y) with zeroRight | positiveRight
    · rw [valueZero.mpr zeroRight, add_zero] at exact
      rw [partsZero zeroRight, exact, same]
      exact ⟨x, finiteLeft, rfl, same⟩
    · rw [same, partsFinite finiteRight positiveRight]
      apply reachesNormal finite
      rw [Int.cast_add, add_mul, decreaseValue _ _ (min_le_left _ _),
        decreaseValue _ _ (min_le_right _ _), exact, valueSign x, valueSign y]

/-- A difference is the sum with the opposite. -/
theorem subParts (first second : UnpackedFloat) :
    UnpackedFloat.sub Format.binary64 first second =
      UnpackedFloat.add Format.binary64 first second.neg := by
  cases first with
  | notANumber => cases second <;> rfl
  | infinity s => cases second <;> rfl
  | zero s => cases second <;> rfl
  | finite s m e positive =>
      cases second with
      | notANumber | infinity _ | zero _ => rfl
      | finite other n j _ =>
          have opposite (a b : Int) : a - other.apply b = a + (-other).apply b := by
            cases other
            · exact sub_eq_add_neg a (-b) ▸ congrArg (a + ·) (neg_neg b)
            · exact sub_eq_add_neg a b
          simp only [UnpackedFloat.sub, UnpackedFloat.add, UnpackedFloat.neg, opposite]

theorem applyMul (s t : Sign) (m n : Nat) :
    (s * t).apply (m * n : Nat) = s.apply m * t.apply n := by
  cases s with
  | negative =>
      cases t with
      | negative => exact (neg_mul_neg (m : Int) n).symm
      | positive => exact (neg_mul (m : Int) n).symm
  | positive =>
      cases t with
      | negative => exact (mul_neg (m : Int) n).symm
      | positive => rfl

/-- The digits of a product reach down to the exponent of any number with its value. -/
theorem exponentMul (positiveLeft : 0 < significand x) (positiveRight : 0 < significand y)
    (positive : 0 < significand z)
    (same : ((significand x * significand y : Nat) : Rat) * 2 ^ (exponent x + exponent y) =
      magnitude z) : exponent x + exponent y ≤ exponent z := by
  rw [← targetParts positive, ← totalExponentEq positive same, targetEq, totalExponent]
  have product : significand x * significand y ≠ 0 := by positivity
  -- The product of two subnormal numbers lies below the least exponent, and every other product has
  -- at least 53 digits.
  by_cases left : field x = 0
  · by_cases right : field y = 0
    · have leastLeft := exponentSubnormal left
      have leastRight := exponentSubnormal right
      omega
    · have large : 2 ^ 52 ≤ significand x * significand y :=
        (significandNormal right).trans (Nat.le_mul_of_pos_left _ positiveLeft)
      have digits := (Nat.le_log2 product).mpr large
      omega
  · have large : 2 ^ 52 ≤ significand x * significand y :=
      (significandNormal left).trans (Nat.le_mul_of_pos_right _ positiveRight)
    have digits := (Nat.le_log2 product).mpr large
    omega

theorem reachesMul (finiteLeft : x.isFinite) (finiteRight : y.isFinite) (finite : z.isFinite)
    (exact : value z = value x * value y) :
    Reaches (UnpackedFloat.mul Format.binary64 (parts x) (parts y)) (value z) := by
  rcases Nat.eq_zero_or_pos (significand x) with zeroLeft | positiveLeft
  · rw [valueZero.mpr zeroLeft, zero_mul] at exact
    rw [partsZero zeroLeft, exact]
    rcases Nat.eq_zero_or_pos (significand y) with zeroRight | positiveRight
    · rw [partsZero zeroRight]
      exact reachesZero _
    · rw [partsFinite finiteRight positiveRight]
      exact reachesZero _
  · rw [partsFinite finiteLeft positiveLeft]
    rcases Nat.eq_zero_or_pos (significand y) with zeroRight | positiveRight
    · rw [valueZero.mpr zeroRight, mul_zero] at exact
      rw [partsZero zeroRight, exact]
      exact reachesZero _
    · rw [partsFinite finiteRight positiveRight]
      have signed : (((sign x * sign y).apply (significand x * significand y : Nat) : Int) : Rat) *
          2 ^ (exponent x + exponent y) = value z := by
        rw [exact, valueSign x, valueSign y, zpow_add₀ (by norm_num), applyMul]
        push_cast
        ring
      obtain ⟨positive, signs, magnitudes⟩ :=
        signOfValue (Nat.mul_pos positiveLeft positiveRight) signed
      have fine := exponentMul positiveLeft positiveRight positive magnitudes
      have rounded := accurateExact finite positive magnitudes fine
      rw [signs] at rounded
      exact ⟨z, finite, rfl, rounded.symm⟩

/-- Packing the parts of a finite number gives the number. -/
theorem Reaches.packed {unpacked : UnpackedFloat} {v : Rat} (reaches : Reaches unpacked v)
    (packed : x.toBits.toBitVec = UnpackedFloat.pack Format.binary64 unpacked) :
    x.isFinite ∧ value x = v := by
  obtain ⟨z, finite, rfl, rfl⟩ := reaches
  rw [parts, packUnpack finite] at packed
  obtain rfl : x = z := Float.toBits_inj.mp (UInt64.toBitVec_inj.mp packed)
  exact ⟨finite, rfl⟩

/-- A sum is exact if a finite number has its value. -/
theorem addExact (finiteLeft : x.isFinite) (finiteRight : y.isFinite) (finite : z.isFinite)
    (exact : value z = value x + value y) :
    (x + y).isFinite ∧ value (x + y) = value z :=
  (reachesAdd finiteLeft finiteRight finite exact).packed rfl

/-- A difference is exact if a finite number has its value. -/
theorem subExact (finiteLeft : x.isFinite) (finiteRight : y.isFinite) (finite : z.isFinite)
    (exact : value z = value x - value y) :
    (x - y).isFinite ∧ value (x - y) = value z := by
  have opposite : parts (-y) = (parts y).neg := by
    rw [parts, toBitsNeg finiteRight, unpackFlipped, parts]
  have reaches := reachesAdd finiteLeft (finiteNeg finiteRight) finite
    (by rw [exact, valueOpposite finiteRight, sub_eq_add_neg])
  rw [opposite, ← subParts] at reaches
  exact reaches.packed rfl

/-- A product is exact if a finite number has its value. -/
theorem mulExact (finiteLeft : x.isFinite) (finiteRight : y.isFinite) (finite : z.isFinite)
    (exact : value z = value x * value y) :
    (x * y).isFinite ∧ value (x * y) = value z :=
  (reachesMul finiteLeft finiteRight finite exact).packed rfl

end Operations

end Calculator.Binary64
