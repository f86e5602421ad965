/-
This file proves that the search for the order of a number takes one step for each power between its
start and the order.
-/

import Calculator.Proofs.Rational.Order

namespace Calculator.Rational

/-- A loop goes on while its test holds, and this counts its steps. -/
inductive Loop (test : Int → Prop) (next : Int → Int) : Int → Nat → Int → Prop where
  | stop {first : Int} : ¬test first → Loop test next first 0 first
  | again {first last : Int} {count : Nat} : test first → Loop test next (next first) count last →
      Loop test next first (count + 1) last

variable {base : Nat} {x : Rat} {k : Int}

/-- The powers at or below a number are those up to its order. -/
theorem InDecade.powerLeIff (large : 1 < base) (inside : InDecade base x k) (j : Int) :
    (base : Rat) ^ j ≤ x ↔ j ≤ k := by
  have grows : (1 : Rat) < base := by exact_mod_cast large
  constructor
  · intro below
    have := (zpow_lt_zpow_iff_right₀ grows).mp (lt_of_le_of_lt below inside.2)
    omega
  · intro within
    exact le_trans (zpow_le_zpow_right₀ grows.le within) inside.1

/-- The search from above ends at the order, and a start below the order stays. -/
theorem descendEq (large : 1 < base) (inside : InDecade base x k) (start : Int) :
    descend base x start = min start k := by
  induction start using descend.induct base x with
  | case1 exponent above inductionHypothesis =>
      have high := mt (inside.powerLeIff large exponent).mpr (not_le.mpr above.2.2)
      rw [descend, dif_pos above, inductionHypothesis]
      omega
  | case2 exponent stopped =>
      have low : (base : Rat) ^ exponent ≤ x :=
        not_lt.mp fun above => stopped ⟨large, inside.positive large, above⟩
      rw [descend, dif_neg stopped]
      have := (inside.powerLeIff large exponent).mp low
      omega

theorem descendLoop (large : 1 < base) (inside : InDecade base x k) (start : Int) :
    Loop (fun j => x < (base : Rat) ^ j) (· - 1) start (start - k).toNat
      (descend base x start) := by
  induction start using descend.induct base x with
  | case1 exponent above inductionHypothesis =>
      have high := mt (inside.powerLeIff large exponent).mpr (not_le.mpr above.2.2)
      have steps : (exponent - k).toNat = (exponent - 1 - k).toNat + 1 := by omega
      rw [descend, dif_pos above, steps]
      exact .again above.2.2 inductionHypothesis
  | case2 exponent stopped =>
      have low : ¬x < (base : Rat) ^ exponent :=
        fun above => stopped ⟨large, inside.positive large, above⟩
      have steps : (exponent - k).toNat = 0 := by
        have := (inside.powerLeIff large exponent).mp (not_lt.mp low)
        omega
      rw [descend, dif_neg stopped, steps]
      exact .stop low

theorem ascendLoop (large : 1 < base) (inside : InDecade base x k) (start : Int) :
    Loop (fun j => (base : Rat) ^ (j + 1) ≤ x) (· + 1) start (k - start).toNat
      (ascend base x start) := by
  induction start using ascend.induct base x with
  | case1 exponent next inductionHypothesis =>
      have low := (inside.powerLeIff large (exponent + 1)).mp next.2
      have steps : (k - exponent).toNat = (k - (exponent + 1)).toNat + 1 := by omega
      rw [ascend, dif_pos next, steps]
      exact .again next.2 inductionHypothesis
  | case2 exponent stopped =>
      have high : ¬(base : Rat) ^ (exponent + 1) ≤ x := fun next => stopped ⟨large, next⟩
      have steps : (k - exponent).toNat = 0 := by
        have := mt (inside.powerLeIff large (exponent + 1)).mpr high
        omega
      rw [ascend, dif_neg stopped, steps]
      exact .stop high

/-- At most one of the two loops of the search has steps. -/
theorem orderFromLoops (large : 1 < base) (inside : InDecade base x k) (start : Int) :
    Loop (fun j => x < (base : Rat) ^ j) (· - 1) start (start - k).toNat (descend base x start) ∧
      Loop (fun j => (base : Rat) ^ (j + 1) ≤ x) (· + 1) (descend base x start) (k - start).toNat
        (orderFrom base x start) := by
  have steps : (k - descend base x start).toNat = (k - start).toNat := by
    rw [descendEq large inside]
    omega
  rw [← steps]
  exact ⟨descendLoop large inside start, ascendLoop large inside _⟩

end Calculator.Rational
