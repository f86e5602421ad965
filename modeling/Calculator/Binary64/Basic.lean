/-
This file reads the exact value of a binary64 number from its bits.
-/

namespace Calculator.Binary64

/-- The fraction field holds the low 52 bits. -/
def fraction (x : Float) : Nat :=
  x.toBits.toNat % 0x10000000000000

/-- The exponent field holds the next 11 bits. -/
def field (x : Float) : Nat :=
  x.toBits.toNat / 0x10000000000000 % 0x800

/-- The highest bit is the sign. -/
def negative (x : Float) : Bool :=
  0x8000000000000000 ≤ x.toBits.toNat

/-- A normal number has a hidden bit above its fraction. -/
def significand (x : Float) : Nat :=
  if field x = 0 then fraction x else 0x10000000000000 + fraction x

/-- The subnormal numbers share the exponent of the least normal ones. -/
def exponent (x : Float) : Int :=
  ((if field x = 0 then 1 else field x : Nat) : Int) - 1075

def magnitude (x : Float) : Rat :=
  (significand x : Rat) * 2 ^ exponent x

/-- This is the exact value of a finite number. -/
def value (x : Float) : Rat :=
  if negative x then -magnitude x else magnitude x

/-- The bit pattern of the positive infinity follows the largest finite pattern. -/
def infinityBits : Nat := 0x7FF0000000000000

def infinity : Float := Float.ofBits 0x7FF0000000000000

/-- This is the number nearest to the half turn. -/
def pi : Float := Float.ofBits 0x400921FB54442D18

end Calculator.Binary64
