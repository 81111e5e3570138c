import SolidField.Proofs.Numeric.Arithmetic
import SolidField.Proofs.Numeric.NotANumber

/-!
# Squares and roots of singles

A square has no sign, and neither has a sum of two numbers without one, whether they
are finite or not.  The root of such a number is a number if the argument is one.
-/

namespace SolidField

/-! ## Signs of packed numbers -/

namespace SinglePrecision

open Float.Model Float.Model.UnpackedFloat

/-- Positive, or not a number. -/
def IsUnsigned : UnpackedFloat → Prop
  | .notANumber => True
  | .infinity sign | .zero sign | .finite sign .. => sign = .positive

theorem signOf_packComponents (sign : Sign) (exponent : BitVec 8) (mantissa : BitVec 23) :
    signOf (packComponents Format.binary32 sign exponent mantissa) = sign := by
  have narrow := exponent.isLt
  have short := mantissa.isLt
  have bit : signBit sign ≤ 1 := by cases sign <;> decide
  have carried : (packComponents Format.binary32 sign exponent mantissa).toNat /
      2 ^ 31 % 2 = signBit sign := by
    rw [toNat_packComponents]
    omega
  rw [signOf, carried]
  cases sign <;> rfl

/-- What has no sign is packed into a word without one. -/
theorem signOf_pack {number : UnpackedFloat} (unsigned : IsUnsigned number) :
    signOf (UnpackedFloat.pack Format.binary32 number) = .positive := by
  cases number with
  | notANumber => exact signOf_packComponents _ _ _
  | infinity sign => exact (signOf_packComponents _ _ _).trans unsigned
  | zero sign => exact (signOf_packComponents _ _ _).trans unsigned
  | finite sign mantissa exponent positive =>
      rw [UnpackedFloat.pack]
      split
      · exact (signOf_packComponents _ _ _).trans unsigned
      · split
        · exact (signOf_packComponents _ _ _).trans unsigned
        · exact (signOf_packComponents _ _ _).trans unsigned

/-- A word without a sign is that of a number without one. -/
theorem isUnsigned_unpack {word : Word} (positive : signOf word = .positive) :
    IsUnsigned (UnpackedFloat.unpack Format.binary32 word) := by
  rw [← ofBitVec_unpackSign] at positive
  simp only [UnpackedFloat.unpack]
  split
  · split
    · exact positive
    · trivial
  · split
    · split
      · exact positive
      · exact positive
    · exact positive

theorem isUnsigned_unpack_pack {number : UnpackedFloat} (unsigned : IsUnsigned number) :
    IsUnsigned (UnpackedFloat.unpack Format.binary32
      (UnpackedFloat.pack Format.binary32 number)) :=
  isUnsigned_unpack (signOf_pack unsigned)

/-! ## Operations -/

theorem isUnsigned_roundWithAccuracy (format : Format) (mantissa : Nat) (exponent : Int)
    (accuracy : Accuracy) :
    IsUnsigned (roundWithAccuracy format .positive mantissa exponent accuracy) := by
  simp only [roundWithAccuracy]
  split <;> rfl

theorem isUnsigned_mul_self (format : Format) (number : UnpackedFloat) :
    IsUnsigned (UnpackedFloat.mul format number number) := by
  cases number with
  | notANumber => trivial
  | infinity sign => cases sign <;> rfl
  | zero sign => cases sign <;> rfl
  | finite sign mantissa exponent positive =>
      cases sign
      · exact isUnsigned_roundWithAccuracy _ _ _ _
      · exact isUnsigned_roundWithAccuracy _ _ _ _

/-- An integer that is not negative is rounded to a number without a sign. -/
theorem isUnsigned_normalize (format : Format) {mantissa : Int} (nonneg : 0 ≤ mantissa)
    (exponent : Int) :
    IsUnsigned (normalize format mantissa exponent .positive) := by
  simp only [UnpackedFloat.normalize]
  split
  · next less => exact absurd (compare_lt_iff_lt.mp less) (not_lt.mpr nonneg)
  · rfl
  · exact isUnsigned_roundWithAccuracy _ _ _ _

theorem isUnsigned_add (format : Format) {number other : UnpackedFloat}
    (unsigned : IsUnsigned number) (otherUnsigned : IsUnsigned other) :
    IsUnsigned (UnpackedFloat.add format number other) := by
  cases number with
  | notANumber => trivial
  | infinity sign =>
      cases other with
      | notANumber => trivial
      | infinity otherSign =>
          rw [UnpackedFloat.add]
          split
          · exact unsigned
          · trivial
      | zero otherSign => exact unsigned
      | finite otherSign => exact unsigned
  | zero sign =>
      cases other with
      | notANumber => trivial
      | infinity otherSign => exact otherUnsigned
      | zero otherSign =>
          rw [UnpackedFloat.add]
          split
          · exact unsigned
          · rfl
      | finite otherSign => exact otherUnsigned
  | finite sign mantissa exponent positive =>
      cases other with
      | notANumber => trivial
      | infinity otherSign => exact otherUnsigned
      | zero otherSign => exact unsigned
      | finite otherSign otherMantissa otherExponent otherPositive =>
          obtain rfl : sign = .positive := unsigned
          obtain rfl : otherSign = .positive := otherUnsigned
          exact isUnsigned_normalize _
            (add_nonneg (Int.natCast_nonneg _) (Int.natCast_nonneg _)) _

/-- The root of a number without a sign is a number. -/
theorem isNaN_sqrt (format : Format) {number : UnpackedFloat}
    (unsigned : IsUnsigned number) :
    (UnpackedFloat.sqrt format number).isNaN = number.isNaN := by
  cases number with
  | notANumber => rfl
  | infinity sign =>
      obtain rfl : sign = .positive := unsigned
      rfl
  | zero sign => rfl
  | finite sign mantissa exponent positive =>
      obtain rfl : sign = .positive := unsigned
      exact FloatModel.isNaN_roundWithAccuracy _ _ _ _ _

end SinglePrecision

/-! ## Singles -/

namespace Single

open SinglePrecision FloatModel Float.Model

variable {x y : Single}

theorem isNegative_eq_false_iff :
    x.isNegative = false ↔ signOf x.bits.toBitVec = .positive := by
  have bits : x.bits.toBitVec.toNat = x.bits.toNat := rfl
  rw [← Bool.not_eq_true, isNegative_iff, not_not, signOf, bits]
  by_cases positive : x.bits.toNat / 2 ^ 31 % 2 = 0
  · exact iff_of_true positive (if_pos positive)
  · rw [if_neg positive]
    exact iff_of_false positive fun same => by cases same

/-- The operations see a number without a sign. -/
theorem isUnsigned_unpack_toFloat32 (nonneg : x.isNegative = false) :
    IsUnsigned x.toFloat32.toModel.unpack :=
  isUnsigned_unpack_pack (isUnsigned_unpack (isNegative_eq_false_iff.mp nonneg))

/-- A square has no sign. -/
theorem isNegative_mul_self (x : Single) : (x * x).isNegative = false :=
  isNegative_eq_false_iff.mpr (signOf_pack (isUnsigned_mul_self _ _))

theorem isNegative_add (nonneg : x.isNegative = false)
    (otherNonneg : y.isNegative = false) :
    (x + y).isNegative = false :=
  isNegative_eq_false_iff.mpr (signOf_pack (isUnsigned_add _
    (isUnsigned_unpack_toFloat32 nonneg) (isUnsigned_unpack_toFloat32 otherNonneg)))

theorem isNaN_iff_unpacked (x : Single) : x.isNaN = true ↔ x.unpacked.isNaN = true := by
  have exponent := toNat_unpackExponent x.bits.toBitVec
  have mantissa := toNat_unpackMantissa x.bits.toBitVec
  have bits : x.bits.toBitVec.toNat = x.bits.toNat := rfl
  have infinity : BinaryFormat.single.infinity = 255 * 2 ^ 23 := rfl
  rw [unpacked, isNaN_unpack, ← BitVec.toNat_inj, ne_eq, ← BitVec.toNat_inj, exponent,
    mantissa, isNaN, decide_eq_true_eq, magnitude_eq, infinity, bits]
  show _ ↔ x.bits.toNat / 2 ^ 23 % 2 ^ 8 = 255 ∧ ¬x.bits.toNat % 2 ^ 23 = 0
  omega

/-- The operations see a number if there is one. -/
theorem isNaN_unpack_toFloat32 (x : Single) :
    x.toFloat32.toModel.unpack.isNaN = x.isNaN := by
  rw [Bool.eq_iff_iff, isNaN_iff_unpacked]
  exact isNaN_unpack_pack x.unpacked

/-- What an operation packs is a number if the result is one. -/
theorem isNaN_ofModel_pack (number : UnpackedFloat) :
    (ofFloat32 (.ofModel (.pack number))).isNaN = number.isNaN := by
  rw [Bool.eq_iff_iff, isNaN_iff_unpacked]
  exact isNaN_unpack_pack number

theorem isNaN_sqrt_of_nonneg (nonneg : x.isNegative = false) :
    x.sqrt.isNaN = x.isNaN := by
  rw [← isNaN_unpack_toFloat32 x,
    ← SinglePrecision.isNaN_sqrt Format.binary32 (isUnsigned_unpack_toFloat32 nonneg)]
  exact isNaN_ofModel_pack _

/-- A product with a finite number other than zero is a number if the other factor is. -/
theorem isNaN_mul_of_finite {sign : UnpackedFloat.Sign} {mantissa : Nat} {exponent : Int}
    {positive : 0 < mantissa}
    (factor : y.toFloat32.toModel.unpack = .finite sign mantissa exponent positive) :
    (x * y).isNaN = x.isNaN := by
  have product : (x * y).isNaN =
      (UnpackedFloat.mul Format.binary32 x.toFloat32.toModel.unpack
        y.toFloat32.toModel.unpack).isNaN := isNaN_ofModel_pack _
  rw [product, factor, ← isNaN_unpack_toFloat32 x]
  cases x.toFloat32.toModel.unpack with
  | notANumber => rfl
  | infinity sign => rfl
  | zero sign => rfl
  | finite sign mantissa exponent positive => exact isNaN_roundWithAccuracy _ _ _ _ _

/-- A number times one, with either sign, is a number. -/
theorem isNaN_mul_unit (x : Single) {unit : Single} (isUnit : unit = 1 ∨ unit = -1) :
    (x * unit).isNaN = x.isNaN := by
  rcases isUnit with rfl | rfl
  · exact isNaN_mul_of_finite rfl
  · exact isNaN_mul_of_finite rfl

/-- Numbers without a sign that no comparison tells apart are one. -/
theorem eq_of_not_less (nonneg : x.isNegative = false)
    (otherNonneg : y.isNegative = false)
    (number : x.isNaN = false) (otherNumber : y.isNaN = false)
    (notLess : x.less y = false) (notGreater : y.less x = false) : x = y := by
  have same : x.magnitude = y.magnitude := by
    simp only [less, rank, nonneg, otherNonneg, number, otherNumber, Bool.not_false,
      Bool.true_and, decide_eq_false_iff_not, Bool.false_eq_true,
      if_false] at notLess notGreater
    omega
  have word {z : Single} (nonneg : z.isNegative = false) : z.bits.toNat = z.magnitude := by
    have small := not_not.mp (mt (isNegative_iff z).mpr (Bool.eq_false_iff.mp nonneg))
    have inside := z.bits.toNat_lt
    rw [magnitude_eq]
    omega
  have bits : x.bits = y.bits := by
    rw [← UInt32.toNat_inj, word nonneg, word otherNonneg, same]
  exact congrArg Single.mk bits

end Single

end SolidField
