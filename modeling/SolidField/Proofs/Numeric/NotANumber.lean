import Mathlib
import SolidField.Numeric.Single

/-!
# What is not a number

A product with a positive constant is a number if and only if the other factor
is one, and so is what rounding to single precision makes of it.  Among numbers
each comparison is the negation of the opposite one.
-/

namespace SolidField

/-! ## Packed numbers -/

namespace FloatModel

open Float.Model Float.Model.UnpackedFloat

variable {format : Format}

theorem isNaN_unpack (word : BitVec format.numBits) :
    (UnpackedFloat.unpack format word).isNaN = true ↔
      unpackExponent word = -BitVec.ofNat _ 1 ∧
        unpackMantissa word ≠ BitVec.ofNat _ 0 := by
  simp only [UnpackedFloat.unpack]
  split
  · next top =>
      split
      · next zero => simp [UnpackedFloat.isNaN, zero]
      · next other => simp [UnpackedFloat.isNaN, top, other]
  · next below =>
      simp only [below, false_and, iff_false, Bool.not_eq_true]
      split
      · split <;> rfl
      · rfl

theorem exponent_ne_top {width exponent : Nat} (small : ¬2 ^ width ≤ exponent + 1) :
    BitVec.ofNat width exponent ≠ -BitVec.ofNat width 1 := by
  intro top
  have words := congrArg BitVec.toNat top
  rw [BitVec.toNat_ofNat, Nat.mod_eq_of_lt (by omega), BitVec.neg_one_eq_allOnes,
    BitVec.toNat_allOnes] at words
  omega

/-- The pattern that is not a number has its first mantissa bit. -/
theorem firstBit_ne_zero {width : Nat} (positive : 0 < width) :
    BitVec.ofNat width 1 <<< (width - 1) ≠ BitVec.ofNat width 0 := by
  intro zero
  have bit := congrArg (·.getLsbD (width - 1)) zero
  simp [positive] at bit

/-- What is packed is a number if and only if it was one. -/
theorem isNaN_unpack_pack (value : UnpackedFloat) :
    (UnpackedFloat.unpack format (UnpackedFloat.pack format value)).isNaN = true ↔
      value.isNaN = true := by
  rw [isNaN_unpack]
  cases value with
  | notANumber =>
      simpa [UnpackedFloat.pack, packedNaN, UnpackedFloat.isNaN] using
        firstBit_ne_zero format.hm
  | infinity sign => simp [UnpackedFloat.pack, packedInfinity, UnpackedFloat.isNaN]
  | zero sign => simp [UnpackedFloat.pack, packedZero, UnpackedFloat.isNaN]
  | finite sign mantissa exponent positive =>
      simp only [UnpackedFloat.pack, UnpackedFloat.isNaN, Bool.false_eq_true, iff_false]
      split
      · simp [packedInfinity]
      · next small =>
          split
          · simp only [unpackExponent_packComponents, unpackMantissa_packComponents,
              exponent_ne_top small, false_and, not_false_eq_true]
          · simp [Nat.pos_iff_ne_zero.mp format.he]

/-- Rounding gives a number. -/
theorem isNaN_roundWithAccuracy (format : Format) (sign : Sign) (mantissa : Nat)
    (exponent : Int) (accuracy : Accuracy) :
    (roundWithAccuracy format sign mantissa exponent accuracy).isNaN = false := by
  simp only [roundWithAccuracy]
  split <;> rfl

end FloatModel

/-! ## Double precision -/

namespace DoublePrecision

open Float.Model Float.Model.UnpackedFloat FloatModel

/-- Finite, and not zero. -/
def isRegular (x : Float) : Bool :=
  match x.toModel.unpack with
  | .finite .. => true
  | _ => false

/-- A product with a regular number is a number if the other factor is one. -/
theorem isNaN_mul (x : Float) {factor : Float} (regular : isRegular factor = true) :
    (x * factor).isNaN = x.isNaN := by
  rw [Bool.eq_iff_iff]
  show (UnpackedFloat.unpack Format.binary64 (UnpackedFloat.pack Format.binary64
    (UnpackedFloat.mul Format.binary64 x.toModel.unpack factor.toModel.unpack))).isNaN =
      true ↔ x.toModel.unpack.isNaN = true
  rw [isNaN_unpack_pack]
  rw [isRegular] at regular
  split at regular
  · next unpacked =>
      rw [unpacked]
      cases x.toModel.unpack with
      | notANumber => rfl
      | infinity sign => rfl
      | zero sign => rfl
      | finite sign mantissa exponent positive =>
          rw [UnpackedFloat.mul, isNaN_roundWithAccuracy]
          rfl
  · cases regular

/-- Words beyond infinity are not numbers. -/
theorem isNaN_iff_infinity_lt (x : Float) :
    x.isNaN = true ↔
      BinaryFormat.double.infinity < (x.toBits &&& 0x7fffffffffffffff).toNat := by
  show (UnpackedFloat.unpack Format.binary64 x.toBits.toBitVec).isNaN = true ↔ _
  have masked : (x.toBits &&& 0x7fffffffffffffff).toNat =
      x.toBits.toNat % 2 ^ 63 := by
    rw [UInt64.toNat_and]
    exact Nat.and_two_pow_sub_one_eq_mod _ 63
  have exponent : (@unpackExponent Format.binary64 x.toBits.toBitVec).toNat =
      x.toBits.toNat / 2 ^ 52 % 2 ^ 11 := by
    rw [unpackExponent, BitVec.toNat_cast, BitVec.extractLsb_toNat,
      Nat.shiftRight_eq_div_pow]
    rfl
  have mantissa : (@unpackMantissa Format.binary64 x.toBits.toBitVec).toNat =
      x.toBits.toNat % 2 ^ 52 := by
    rw [unpackMantissa, BitVec.toNat_cast, BitVec.extractLsb_toNat,
      Nat.shiftRight_zero]
    rfl
  have infinity : BinaryFormat.double.infinity = 2047 * 2 ^ 52 := rfl
  rw [isNaN_unpack, ← BitVec.toNat_inj, ne_eq, ← BitVec.toNat_inj, exponent,
    mantissa, masked, infinity]
  show x.toBits.toNat / 2 ^ 52 % 2 ^ 11 = 2047 ∧ ¬x.toBits.toNat % 2 ^ 52 = 0 ↔ _
  omega

end DoublePrecision

namespace Single

open DoublePrecision

theorem magnitude_ofMagnitude (negative : Bool) {word : Nat}
    (small : word < 2 ^ 31) : (ofMagnitude negative word).magnitude = word := by
  have masked : ∀ bits : UInt32,
      (bits &&& 0x7fffffff).toNat = bits.toNat % 2 ^ 31 := by
    intro bits
    rw [UInt32.toNat_and]
    exact Nat.and_two_pow_sub_one_eq_mod _ 31
  rw [magnitude, ofMagnitude, masked, UInt32.toNat_or,
    UInt32.toNat_ofNat_of_lt' (Nat.lt_trans small (by decide)), Nat.or_mod_two_pow,
    Nat.mod_eq_of_lt small]
  cases negative <;> exact Nat.or_zero word

/-- Magnitudes up to infinity are those of numbers. -/
theorem isNaN_ofMagnitude (negative : Bool) {word : Nat}
    (small : word ≤ BinaryFormat.single.infinity) :
    (ofMagnitude negative word).isNaN = false := by
  have infinity : BinaryFormat.single.infinity < 2 ^ 31 := by decide
  rw [isNaN, magnitude_ofMagnitude negative (Nat.lt_of_le_of_lt small infinity)]
  exact decide_eq_false (Nat.not_lt.mpr small)

/-- Rounding to single precision gives a number if and only if it gets one. -/
theorem isNaN_ofFloat (x : Float) : (ofFloat x).isNaN = x.isNaN := by
  rw [Bool.eq_iff_iff, isNaN_iff_infinity_lt]
  simp only [ofFloat]
  split
  · next finite =>
      rw [ofUnits, isNaN_ofMagnitude _ (BinaryFormat.round_le_infinity _ _ _)]
      exact iff_of_false nofun (Nat.lt_asymm finite)
  · next unbounded =>
      split
      · next infinite =>
          rw [isNaN_ofMagnitude _ (Nat.le_refl _)]
          exact iff_of_false nofun (by rw [infinite]; exact Nat.lt_irrefl _)
      · next different =>
          exact iff_of_true (by decide)
            (Nat.lt_of_le_of_ne (Nat.le_of_not_lt unbounded) (Ne.symm different))

/-- The absolute value is a number if and only if its argument is one. -/
theorem isNaN_abs (x : Single) : x.abs.isNaN = x.isNaN := by
  rw [isNaN, isNaN, magnitude, magnitude, abs, UInt32.and_assoc, UInt32.and_self]

/-- Among numbers, one is at most another one unless the other one is less. -/
theorem atMost_eq_true_iff {x y : Single} (number : x.isNaN = false) :
    x.atMost y = true ↔ y.less x = false ∧ y.isNaN = false := by
  simp only [atMost, less, number]
  cases y.isNaN <;> simp

end Single

end SolidField
