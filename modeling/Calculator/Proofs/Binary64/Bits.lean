/-
This file proves how the bits of a number give its sign, its exponent field and its fraction.
-/

import Calculator.Binary64.Basic
import Mathlib

namespace Calculator.Binary64

open Float.Model Float.Model.UnpackedFloat

section Fields

variable (b : BitVec 64)

theorem unpackExponentNat :
    (@unpackExponent Format.binary64 b).toNat = b.toNat / 0x10000000000000 % 0x800 := by
  simp [unpackExponent, BitVec.extractLsb_toNat, Nat.shiftRight_eq_div_pow]

theorem unpackMantissaNat :
    (@unpackMantissa Format.binary64 b).toNat = b.toNat % 0x10000000000000 := by
  simp [unpackMantissa, BitVec.extractLsb_toNat]

theorem unpackSignNat :
    (@unpackSign Format.binary64 b).toNat = b.toNat / 0x8000000000000000 := by
  have := b.isLt
  simp [unpackSign, BitVec.extractLsb_toNat, Nat.shiftRight_eq_div_pow]
  omega

end Fields

/-- The three fields lie side by side. -/
theorem packComponentsNat (sign : Sign) (exponent : BitVec 11) (mantissa : BitVec 52) :
    (packComponents Format.binary64 sign exponent mantissa).toNat =
      sign.toBitVec.toNat * 0x8000000000000000 + exponent.toNat * 0x10000000000000 +
        mantissa.toNat := by
  have := mantissa.isLt
  have := exponent.isLt
  simp only [packComponents, BitVec.toNat_append]
  rw [← Nat.shiftLeft_add_eq_or_of_lt (by omega), ← Nat.shiftLeft_add_eq_or_of_lt (by omega)]
  simp only [Nat.shiftLeft_eq]
  omega

/-- Only the greatest exponent field with a fraction is not a number. -/
theorem notNaNBits {b : BitVec 64}
    (number : b.toNat / 0x10000000000000 % 0x800 = 2047 → b.toNat % 0x10000000000000 = 0) :
    @isNaNBits Format.binary64 b = false := by
  rw [← unpackExponentNat, ← unpackMantissaNat] at number
  apply decide_eq_false
  rintro ⟨infinite, other⟩
  exact other (BitVec.eq_of_toNat_eq (number (congrArg BitVec.toNat infinite)))

/-- A pattern that is a number is its own packing. -/
theorem toBitsOfBits {b : UInt64} (number : @isNaNBits Format.binary64 b.toBitVec = false) :
    (Float.ofBits b).toBits = b := by
  show UInt64.ofBitVec (UnpackedFloat.pack Format.binary64
    (UnpackedFloat.unpack Format.binary64 b.toBitVec)) = b
  rw [pack_unpack, number]
  rfl

/-- The pattern with the other sign bit. -/
def flipped (b : BitVec 64) : BitVec 64 :=
  packComponents Format.binary64 (-Sign.ofBitVec (@unpackSign Format.binary64 b))
    (@unpackExponent Format.binary64 b) (@unpackMantissa Format.binary64 b)

theorem flippedNat (b : BitVec 64) :
    (flipped b).toNat = (1 - b.toNat / 0x8000000000000000) * 0x8000000000000000 +
      b.toNat / 0x10000000000000 % 0x800 * 0x10000000000000 + b.toNat % 0x10000000000000 := by
  have flip : ∀ bit : BitVec 1, (-Sign.ofBitVec bit).toBitVec.toNat = 1 - bit.toNat := by decide
  rw [flipped, packComponentsNat, flip, unpackSignNat, unpackExponentNat, unpackMantissaNat]

/-- The opposite of an unpacked number is packed with the other sign bit. -/
theorem unpackFlipped (b : BitVec 64) :
    UnpackedFloat.unpack Format.binary64 (flipped b) =
      (UnpackedFloat.unpack Format.binary64 b).neg := by
  simp only [flipped, UnpackedFloat.unpack, unpackExponent_packComponents,
    unpackMantissa_packComponents, unpackSign_packComponents, Sign.ofBitVec_toBitVec]
  split
  · split <;> rfl
  · split
    · split <;> rfl
    · rfl

section

variable {x : Float}

theorem unpackField (x : Float) :
    (@unpackExponent Format.binary64 x.toBits.toBitVec).toNat = field x :=
  unpackExponentNat _

theorem unpackFraction (x : Float) :
    (@unpackMantissa Format.binary64 x.toBits.toBitVec).toNat = fraction x :=
  unpackMantissaNat _

/-- The greatest field belongs to the infinities and to what is not a number. -/
theorem unpackInfinite (x : Float) :
    @unpackExponent Format.binary64 x.toBits.toBitVec = -1#11 ↔ field x = 2047 := by
  rw [← BitVec.toNat_inj, unpackField]
  rfl

theorem unpackWhole (x : Float) :
    @unpackMantissa Format.binary64 x.toBits.toBitVec = 0#52 ↔ fraction x = 0 := by
  rw [← BitVec.toNat_inj, unpackFraction]
  rfl

theorem finiteIff : x.isFinite ↔ field x ≠ 2047 := by
  rw [ne_eq, ← unpackInfinite]
  show UnpackedFloat.isFinite (UnpackedFloat.unpack Format.binary64 x.toBits.toBitVec) = true ↔ _
  simp only [UnpackedFloat.unpack]
  split
  · next infinite => split <;> exact iff_of_false Bool.false_ne_true fun finite => finite infinite
  · next finite =>
    split
    · split <;> exact iff_of_true rfl finite
    · exact iff_of_true rfl finite

theorem infIff : x.isInf ↔ field x = 2047 ∧ fraction x = 0 := by
  rw [← unpackInfinite, ← unpackWhole]
  show UnpackedFloat.isInf (UnpackedFloat.unpack Format.binary64 x.toBits.toBitVec) = true ↔ _
  simp only [UnpackedFloat.unpack]
  split
  · next infinite =>
    split
    · next zero => exact iff_of_true rfl ⟨infinite, zero⟩
    · next other => exact iff_of_false Bool.false_ne_true fun both => other both.2
  · next finite =>
    split
    · split <;> exact iff_of_false Bool.false_ne_true fun both => finite both.1
    · exact iff_of_false Bool.false_ne_true fun both => finite both.1

theorem nanIff : x.isNaN ↔ field x = 2047 ∧ fraction x ≠ 0 := by
  rw [← unpackInfinite, ne_eq, ← unpackWhole]
  show UnpackedFloat.isNaN (UnpackedFloat.unpack Format.binary64 x.toBits.toBitVec) = true ↔ _
  simp only [UnpackedFloat.unpack]
  split
  · next infinite =>
    split
    · next zero => exact iff_of_false Bool.false_ne_true fun both => both.2 zero
    · next other => exact iff_of_true rfl ⟨infinite, other⟩
  · next finite =>
    split
    · split <;> exact iff_of_false Bool.false_ne_true fun both => finite both.1
    · exact iff_of_false Bool.false_ne_true fun both => finite both.1

/-- The opposite of a finite number has the other sign bit. -/
theorem toBitsNeg (finite : x.isFinite) : (-x).toBits.toBitVec = flipped x.toBits.toBitVec := by
  have number : @isNaNBits Format.binary64 (flipped x.toBits.toBitVec) = false := by
    apply decide_eq_false
    rintro ⟨infinite, _⟩
    rw [flipped, unpackExponent_packComponents, unpackInfinite] at infinite
    exact finiteIff.mp finite infinite
  show UnpackedFloat.pack Format.binary64
    (UnpackedFloat.unpack Format.binary64 x.toBits.toBitVec).neg = _
  rw [← unpackFlipped, pack_unpack, number]
  rfl

theorem toBitsNegNat (finite : x.isFinite) :
    (-x).toBits.toNat =
      (if negative x then 0 else 0x8000000000000000) + field x * 0x10000000000000 +
        fraction x := by
  have range : x.toBits.toNat < 0x10000000000000000 := x.toBits.toBitVec.isLt
  have bits := congrArg BitVec.toNat (toBitsNeg finite)
  rw [flippedNat] at bits
  rw [negative]
  by_cases minus : 0x8000000000000000 ≤ x.toBits.toNat
  · rw [decide_eq_true minus, if_pos rfl]
    apply Eq.trans bits
    show (1 - x.toBits.toNat / 0x8000000000000000) * _ + field x * _ + fraction x = _
    omega
  · rw [decide_eq_false minus, if_neg Bool.false_ne_true]
    apply Eq.trans bits
    show (1 - x.toBits.toNat / 0x8000000000000000) * _ + field x * _ + fraction x = _
    omega

theorem fieldRange (x : Float) : field x < 2048 := by
  unfold field
  omega

theorem fractionRange (x : Float) : fraction x < 0x10000000000000 := by
  unfold fraction
  omega

theorem fieldNeg (finite : x.isFinite) : field (-x) = field x := by
  have bits := toBitsNegNat finite
  have range := fieldRange x
  have small := fractionRange x
  rw [field, bits]
  split <;> omega

theorem fractionNeg (finite : x.isFinite) : fraction (-x) = fraction x := by
  have bits := toBitsNegNat finite
  have small := fractionRange x
  rw [fraction, bits]
  split <;> omega

theorem finiteNeg (finite : x.isFinite) : (-x).isFinite := by
  rw [finiteIff, fieldNeg finite]
  exact finiteIff.mp finite

theorem nanOfFinite (finite : x.isFinite) : x.isNaN = false := by
  rw [Bool.eq_false_iff]
  exact fun number => finiteIff.mp finite (nanIff.mp number).1

theorem infOfFinite (finite : x.isFinite) : x.isInf = false := by
  rw [Bool.eq_false_iff]
  exact fun infinite => finiteIff.mp finite (infIff.mp infinite).1

theorem negativeNeg (finite : x.isFinite) : negative (-x) = !negative x := by
  have bits := toBitsNegNat finite
  have range := fieldRange x
  have small := fractionRange x
  rw [negative, bits]
  cases negative x with
  | true => simp; omega
  | false => simp; omega

/-- The bits are the sign, the field and the fraction side by side. -/
theorem bitsParts (x : Float) :
    x.toBits.toNat = (if negative x then 0x8000000000000000 else 0) +
      field x * 0x10000000000000 + fraction x := by
  have range : x.toBits.toNat < 0x10000000000000000 := x.toBits.toBitVec.isLt
  simp only [negative, field, fraction, decide_eq_true_eq]
  split <;> omega

theorem eqOfParts {y : Float} (signs : negative x = negative y) (fields : field x = field y)
    (fractions : fraction x = fraction y) : x = y := by
  apply Float.toBits_inj.mp
  apply UInt64.toNat_inj.mp
  rw [bitsParts x, bitsParts y, signs, fields, fractions]

theorem unpackPlus (plus : negative x = false) :
    Sign.ofBitVec (@unpackSign Format.binary64 x.toBits.toBitVec) = .positive := by
  have bit : @unpackSign Format.binary64 x.toBits.toBitVec = 0#1 := by
    apply BitVec.eq_of_toNat_eq
    rw [unpackSignNat]
    have small : x.toBits.toNat < 0x8000000000000000 := by
      simpa [negative] using plus
    exact Nat.div_eq_of_lt small
  rw [bit]
  rfl

theorem unpackMinus (minus : negative x = true) :
    Sign.ofBitVec (@unpackSign Format.binary64 x.toBits.toBitVec) = .negative := by
  have bit : @unpackSign Format.binary64 x.toBits.toBitVec = 1#1 := by
    apply BitVec.eq_of_toNat_eq
    rw [unpackSignNat]
    have range : x.toBits.toNat < 0x10000000000000000 := x.toBits.toBitVec.isLt
    have large : 0x8000000000000000 ≤ x.toBits.toNat := of_decide_eq_true minus
    show x.toBits.toNat / 0x8000000000000000 = 1
    omega
  rw [bit]
  rfl

/-- A finite number is packed from its parts. -/
theorem packUnpack (finite : x.isFinite) : UnpackedFloat.pack Format.binary64
    (UnpackedFloat.unpack Format.binary64 x.toBits.toBitVec) = x.toBits.toBitVec := by
  have number : @isNaNBits Format.binary64 x.toBits.toBitVec = false := by
    apply notNaNBits
    intro infinite
    rw [← unpackExponentNat, unpackField] at infinite
    exact absurd infinite (finiteIff.mp finite)
  rw [pack_unpack, number]
  rfl

/-- A number without a minus sign is its own absolute value. -/
theorem absPlus (plus : negative x = false) (finite : x.isFinite) : x.abs = x := by
  have unpacked : (UnpackedFloat.unpack Format.binary64 x.toBits.toBitVec).abs =
      UnpackedFloat.unpack Format.binary64 x.toBits.toBitVec := by
    simp only [UnpackedFloat.unpack, unpackPlus plus]
    split
    · split <;> rfl
    · split
      · split <;> rfl
      · rfl
  apply Float.toBits_inj.mp
  apply UInt64.toBitVec_inj.mp
  show UnpackedFloat.pack Format.binary64
    (UnpackedFloat.unpack Format.binary64 x.toBits.toBitVec).abs = _
  rw [unpacked, packUnpack finite]

/-- The absolute value of a number with a minus sign is its opposite. -/
theorem absMinus (minus : negative x = true) : x.abs = -x := by
  have unpacked : (UnpackedFloat.unpack Format.binary64 x.toBits.toBitVec).abs =
      (UnpackedFloat.unpack Format.binary64 x.toBits.toBitVec).neg := by
    simp only [UnpackedFloat.unpack, unpackMinus minus]
    split
    · split <;> rfl
    · split
      · split <;> rfl
      · rfl
  apply Float.toBits_inj.mp
  apply UInt64.toBitVec_inj.mp
  show UnpackedFloat.pack Format.binary64
    (UnpackedFloat.unpack Format.binary64 x.toBits.toBitVec).abs = _
  rw [unpacked]
  rfl

end

end Calculator.Binary64
