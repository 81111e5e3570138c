import Mathlib.Algebra.Order.Field.Basic
import SolidField.Numeric.Real

/-!
# Ordered scalars

A linearly ordered field with square roots of what is not negative is a scalar whose
comparisons are its order.  The real numbers are one.
-/

universe u

namespace SolidField

/-- A linearly ordered field with square roots, whose operations are those of a scalar. -/
class OrderedScalar (α : Type u) extends
    ExactScalar α, LinearOrder α, IsStrictOrderedRing α where
  less_iff_lt : ∀ {a b : α}, Scalar.less a b = true ↔ a < b
  atMost_iff_le : ∀ {a b : α}, Scalar.atMost a b = true ↔ a ≤ b
  equal_iff_eq : ∀ {a b : α}, Scalar.equal a b = true ↔ a = b
  sqrt_nonneg : ∀ {a : α}, 0 ≤ a → 0 ≤ Scalar.sqrt a
  sqrt_mul_self : ∀ {a : α}, 0 ≤ a → Scalar.sqrt a * Scalar.sqrt a = a

attribute [simp] OrderedScalar.less_iff_lt OrderedScalar.atMost_iff_le
  OrderedScalar.equal_iff_eq

noncomputable instance : OrderedScalar ℝ where
  __ := (inferInstance : ExactScalar ℝ)
  __ := (inferInstance : LinearOrder ℝ)
  __ := (inferInstance : IsStrictOrderedRing ℝ)
  less_iff_lt := Scalar.less_iff
  atMost_iff_le := Scalar.atMost_iff
  equal_iff_eq := Scalar.equal_iff
  sqrt_nonneg _ := Real.sqrt_nonneg _
  sqrt_mul_self nonneg := Real.mul_self_sqrt nonneg

namespace OrderedScalar

variable {α : Type u} [OrderedScalar α]

/-- The larger of two numbers is their maximum. -/
theorem scalarMax_eq (a b : α) : Scalar.max a b = max a b := by
  simp only [Scalar.max, equal_iff_eq, less_iff_lt, if_true]
  split
  · next larger => exact (max_eq_left larger.le).symm
  · next atMost => exact (max_eq_right (not_lt.mp atMost)).symm

/-- A square has the root that is not negative. -/
theorem sqrt_mul_self_eq {a : α} (nonneg : 0 ≤ a) : Scalar.sqrt (a * a) = a :=
  (mul_self_inj (sqrt_nonneg (mul_self_nonneg a)) nonneg).mp
    (sqrt_mul_self (mul_self_nonneg a))

/-- Only zero has the root zero. -/
theorem sqrt_eq_zero_iff {a : α} (nonneg : 0 ≤ a) : Scalar.sqrt a = 0 ↔ a = 0 := by
  constructor
  · intro zero
    rw [← sqrt_mul_self nonneg, zero, mul_zero]
  · rintro rfl
    simpa using sqrt_mul_self_eq (le_refl (0 : α))

end OrderedScalar

end SolidField
