/-
This file states what is relied on about the elementary functions of the platform.
-/

import Calculator.Elementary

namespace Calculator.Elementary

variable (elementary : Elementary)

/-- No finite number is exactly an odd quarter turn in radians. -/
def FiniteTangent : Prop :=
  ∀ x : Float, x.isFinite → (elementary.tan x).isFinite

/-- The logarithms of the positive finite numbers are finite. -/
structure FiniteLogarithms : Prop where
  log10 : ∀ x : Float, x.isFinite → 0 < x → (elementary.log10 x).isFinite
  ln : ∀ x : Float, x.isFinite → 0 < x → (elementary.ln x).isFinite

/-- These functions have the values of the platform at one place each: the sine and the cosine of
zero, the tangent of an eighth turn, the logarithms of 1000 and of one, and the power of 10 to the
400. -/
@[reducible]
def sample : Elementary where
  sin _ := 0
  cos _ := 1
  tan _ := Float.ofBits 0x3FEFFFFFFFFFFFFF
  log10 _ := 3
  ln _ := 0
  pow _ _ := Float.ofBits 0x7FF0000000000000

theorem sampleTangent : sample.FiniteTangent :=
  have finite : (Float.ofBits 0x3FEFFFFFFFFFFFFF).isFinite := by decide
  fun _ _ => finite

theorem sampleLogarithms : sample.FiniteLogarithms :=
  have three : (3 : Float).isFinite := by decide
  have zero : (0 : Float).isFinite := by decide
  ⟨fun _ _ _ => three, fun _ _ _ => zero⟩

end Calculator.Elementary
