import Mathlib.Algebra.Field.Rat
import Mathlib.Data.Rat.Sqrt
import SolidField.Numeric.Scalar

/-!
# Exact scalars

A scalar is exact if its arithmetic is that of a field: nothing is rounded, and
numbers that compare as equal are equal.  Of the square root only that of one has to
be right; the comparisons may be any.  A finite number in single precision stands for
a rational number, for which exact arithmetic is defined.
-/

universe u

namespace SolidField

/-- A field whose operations are those of a scalar. -/
class ExactScalar (α : Type u) extends Scalar α, Field α where
  two_eq : (Scalar.two : α) = 1 + 1
  sqrt_one : Scalar.sqrt (1 : α) = 1
  eq_of_equal : ∀ {a b : α}, Scalar.equal a b = true → a = b

/-- Rational numbers, with roots that are right for squares only. -/
instance : ExactScalar ℚ where
  half := 1 / 2
  two := 2
  largest := 2 ^ 128 - 2 ^ 104
  ofNat := Nat.cast
  sqrt := Rat.sqrt
  abs a := |a|
  signum a := if a < 0 then -1 else 1
  less a b := decide (a < b)
  atMost a b := decide (a ≤ b)
  equal a b := decide (a = b)
  isFinite _ := true
  two_eq := one_add_one_eq_two.symm
  sqrt_one := by decide +kernel
  eq_of_equal := of_decide_eq_true

/-- The number that the bits stand for exactly, if it is finite. -/
def Single.value (x : Single) : ℚ :=
  (if x.isNegative then -1 else 1) * (x.units / 2 ^ 149)

end SolidField
