import Mathlib.Algebra.Order.Ring.Nat
import SolidField.Numeric.Single

/-!
# Negation of singles

Negation changes the sign bit of every pattern, and nothing else.
-/

namespace SolidField

namespace Single

/-- The sign bit is the highest bit. -/
theorem isNegative_eq_msb (x : Single) : x.isNegative = x.bits.toBitVec.msb := by
  rw [BitVec.msb_eq_decide, isNegative]
  rfl

/-- The magnitude has the other bits. -/
theorem magnitude_eq (x : Single) : x.magnitude = x.bits.toNat % 2 ^ 31 := by
  rw [magnitude, UInt32.toNat_and]
  exact Nat.and_two_pow_sub_one_eq_mod _ 31

theorem isNegative_neg (x : Single) : (-x).isNegative = !x.isNegative := by
  have flipped : (-x).bits.toBitVec.msb = (x.bits.toBitVec.msb ^^ true) :=
    BitVec.msb_xor
  rw [isNegative_eq_msb, isNegative_eq_msb, flipped, Bool.xor_true]

theorem magnitude_neg (x : Single) : (-x).magnitude = x.magnitude := by
  have flipped : (-x).bits.toNat = x.bits.toNat ^^^ 2 ^ 31 := UInt32.toNat_xor _ _
  rw [magnitude_eq, magnitude_eq, flipped, Nat.xor_mod_two_pow, Nat.mod_self,
    Nat.xor_zero]

theorem isFinite_neg (x : Single) : (-x).isFinite = x.isFinite := by
  rw [isFinite, isFinite, magnitude_neg]

theorem isNaN_neg (x : Single) : (-x).isNaN = x.isNaN := by
  rw [isNaN, isNaN, magnitude_neg]

/-- Negation reverses the number line. -/
theorem rank_neg (x : Single) : (-x).rank = -x.rank := by
  rw [rank, rank, isNegative_neg, magnitude_neg]
  cases x.isNegative <;> simp

theorem neg_neg (x : Single) : - -x = x := by
  have restored : x.bits ^^^ 0x80000000 ^^^ 0x80000000 = x.bits := by
    rw [UInt32.xor_assoc, UInt32.xor_self, UInt32.xor_zero]
  exact congrArg Single.mk restored

end Single

end SolidField
