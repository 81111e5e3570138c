import Mathlib.Analysis.Real.Sqrt
import Mathlib.Tactic.Linarith
import SolidField.Numeric.Exact

/-!
# Real numbers

The exact scalar in which square roots are roots and comparisons are the order.  The
largest number is that of the single-precision format.
-/

namespace SolidField

noncomputable instance : ExactScalar ℝ where
  half := 1 / (1 + 1)
  two := 1 + 1
  largest := (2 ^ 128 - 2 ^ 104 : ℕ)
  ofNat := Nat.cast
  sqrt := Real.sqrt
  abs a := |a|
  signum a := if a < 0 then -1 else 1
  less a b := decide (a < b)
  atMost a b := decide (a ≤ b)
  equal a b := decide (a = b)
  isFinite _ := true
  two_eq := rfl
  sqrt_one := Real.sqrt_one
  eq_of_equal := of_decide_eq_true

namespace Scalar

section Comparisons

variable {a b : ℝ}

@[simp]
theorem less_iff : less a b = true ↔ a < b := decide_eq_true_iff

@[simp]
theorem atMost_iff : atMost a b = true ↔ a ≤ b := decide_eq_true_iff

@[simp]
theorem equal_iff : equal a b = true ↔ a = b := decide_eq_true_iff

end Comparisons

section Operations

variable (a b : ℝ)

@[simp]
theorem half_eq : (half : ℝ) = 1 / 2 := by
  rw [← one_add_one_eq_two]
  rfl

@[simp]
theorem two_eq : (two : ℝ) = 2 := one_add_one_eq_two

@[simp]
theorem ofNat_eq (n : Nat) : (ofNat n : ℝ) = n := rfl

@[simp]
theorem sqrt_eq : sqrt a = √a := rfl

@[simp]
theorem abs_eq : abs a = |a| := rfl

@[simp]
theorem isFinite_eq : isFinite a = true := rfl

@[simp]
theorem isPositiveFinite_iff : isPositiveFinite a = true ↔ 0 < a := by
  simp [isPositiveFinite]

/-- The first of two numbers is taken only if it is larger. -/
@[simp]
theorem max_eq : max a b = a ⊔ b := by
  simp only [max, equal_iff, less_iff, if_true]
  split
  · next larger => exact (max_eq_left larger.le).symm
  · next atMost => exact (max_eq_right (not_lt.mp atMost)).symm

/-- The first of two numbers is taken only if it is smaller. -/
@[simp]
theorem min_eq : min a b = a ⊓ b := by
  simp only [min, equal_iff, less_iff, if_true]
  split
  · next smaller => exact (min_eq_left smaller.le).symm
  · next atMost => exact (min_eq_right (not_lt.mp atMost)).symm

theorem clamp_mem_Icc : clamp 0 1 a ∈ Set.Icc (0 : ℝ) 1 := by
  simp only [clamp, less_iff]
  split <;> split <;> constructor <;> linarith

end Operations

end Scalar

end SolidField
