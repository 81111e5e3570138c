import Mathlib
import SolidField.Numeric.Single

/-!
# Packed single-precision numbers

A number that fits the single-precision format is packed into a word and unpacked
from it without a change, and every word of a finite number is that of a number that
fits.
-/

namespace SolidField

namespace SinglePrecision

open Float.Model Float.Model.UnpackedFloat

/-- The word of a single-precision number. -/
abbrev Word := BitVec Format.binary32.numBits

/--
A number of the format: a zero, or a mantissa of 24 bits and an exponent in range.
Only with the least exponent the mantissa may have less bits.
-/
inductive Fits : UnpackedFloat → Prop where
  | zero (sign : Sign) : Fits (.zero sign)
  | finite {sign : Sign} {mantissa : Nat} {exponent : Int} {positive : 0 < mantissa}
      (narrow : mantissa < 2 ^ 24) (lower : -149 ≤ exponent) (upper : exponent ≤ 104)
      (full : 2 ^ 23 ≤ mantissa ∨ exponent = -149) :
      Fits (.finite sign mantissa exponent positive)

/-! ## Fields of words -/

/-- The sign with a bit of its own. -/
def signBit : Sign → Nat
  | .negative => 1
  | .positive => 0

theorem toNat_toBitVec (sign : Sign) : sign.toBitVec.toNat = signBit sign := by
  cases sign <;> rfl

theorem toNat_unpackSign (word : Word) :
    (@unpackSign Format.binary32 word).toNat = word.toNat / 2 ^ 31 % 2 := by
  rw [unpackSign, BitVec.toNat_cast, BitVec.extractLsb_toNat,
    Nat.shiftRight_eq_div_pow]
  rfl

theorem toNat_unpackExponent (word : Word) :
    (@unpackExponent Format.binary32 word).toNat = word.toNat / 2 ^ 23 % 2 ^ 8 := by
  rw [unpackExponent, BitVec.toNat_cast, BitVec.extractLsb_toNat,
    Nat.shiftRight_eq_div_pow]
  rfl

theorem toNat_unpackMantissa (word : Word) :
    (@unpackMantissa Format.binary32 word).toNat = word.toNat % 2 ^ 23 := by
  rw [unpackMantissa, BitVec.toNat_cast, BitVec.extractLsb_toNat, Nat.shiftRight_zero]
  rfl

/-- The first bit of a full mantissa is not stored. -/
theorem toNat_append_one (mantissa : BitVec 23) :
    (1#1 ++ mantissa).toNat = 2 ^ 23 + mantissa.toNat := by
  rw [BitVec.toNat_append, ← Nat.shiftLeft_add_eq_or_of_lt mantissa.isLt]
  rfl

/-- The fields of a word stand one after the other. -/
theorem toNat_packComponents (sign : Sign) (exponent : BitVec 8) (mantissa : BitVec 23) :
    (packComponents Format.binary32 sign exponent mantissa).toNat =
      signBit sign * 2 ^ 31 + exponent.toNat * 2 ^ 23 + mantissa.toNat := by
  have high : (sign.toBitVec ++ exponent).toNat =
      signBit sign * 2 ^ 8 + exponent.toNat := by
    rw [BitVec.toNat_append, ← Nat.shiftLeft_add_eq_or_of_lt exponent.isLt,
      Nat.shiftLeft_eq, toNat_toBitVec]
  have whole : (packComponents Format.binary32 sign exponent mantissa).toNat =
      (sign.toBitVec ++ exponent ++ mantissa).toNat := rfl
  rw [whole, BitVec.toNat_append, ← Nat.shiftLeft_add_eq_or_of_lt mantissa.isLt,
    Nat.shiftLeft_eq, high]
  omega

/-- The sign that a word carries. -/
def signOf (word : Word) : Sign :=
  if word.toNat / 2 ^ 31 % 2 = 0 then .positive else .negative

theorem ofBitVec_unpackSign (word : Word) :
    Sign.ofBitVec (@unpackSign Format.binary32 word) = signOf word := by
  have bit : @unpackSign Format.binary32 word = 0#1 ↔ word.toNat / 2 ^ 31 % 2 = 0 := by
    rw [← BitVec.toNat_inj, toNat_unpackSign]
    rfl
  simp only [Sign.ofBitVec, signOf, bit]

/-- What a word of a finite number is unpacked to. -/
theorem unpack_eq {word : Word} (finite : word.toNat / 2 ^ 23 % 2 ^ 8 ≠ 255) :
    UnpackedFloat.unpack Format.binary32 word =
      if word.toNat / 2 ^ 23 % 2 ^ 8 = 0 then
        if positive : 0 < word.toNat % 2 ^ 23 then
          .finite (signOf word) (word.toNat % 2 ^ 23) (-149) positive
        else
          .zero (signOf word)
      else
        .finite (signOf word) (2 ^ 23 + word.toNat % 2 ^ 23)
          ((word.toNat / 2 ^ 23 % 2 ^ 8 : Nat) - 150) (by positivity) := by
  have notTop : ¬@unpackExponent Format.binary32 word = -1#8 := by
    rw [← BitVec.toNat_inj, toNat_unpackExponent]
    exact finite
  have least : @unpackExponent Format.binary32 word = 0#8 ↔
      word.toNat / 2 ^ 23 % 2 ^ 8 = 0 := by
    rw [← BitVec.toNat_inj, toNat_unpackExponent]
    rfl
  have empty : @unpackMantissa Format.binary32 word = 0#23 ↔
      ¬0 < word.toNat % 2 ^ 23 := by
    rw [← BitVec.toNat_inj, toNat_unpackMantissa, Nat.pos_iff_ne_zero, not_not]
    rfl
  rw [UnpackedFloat.unpack]
  dsimp only
  rw [if_neg notTop, ofBitVec_unpackSign]
  by_cases low : word.toNat / 2 ^ 23 % 2 ^ 8 = 0
  · rw [if_pos (least.mpr low), if_pos low]
    by_cases positive : 0 < word.toNat % 2 ^ 23
    · rw [dif_pos positive, dif_neg (by rw [empty]; exact not_not.mpr positive)]
      congr 1
      rw [toNat_unpackExponent, low]
      rfl
    · rw [dif_neg positive, dif_pos (empty.mpr positive)]
  · rw [if_neg (mt least.mp low), if_neg low]
    congr 1
    · exact (toNat_append_one _).trans (congrArg _ (toNat_unpackMantissa word))
    · rw [toNat_unpackExponent]
      rfl

/-! ## Packing -/

/-- The word of a number that fits: a mantissa that is not full has no exponent. -/
theorem toNat_pack (sign : Sign) {mantissa : Nat} {exponent : Int}
    (positive : 0 < mantissa) (narrow : mantissa < 2 ^ 24) (lower : -149 ≤ exponent)
    (upper : exponent ≤ 104) :
    (UnpackedFloat.pack Format.binary32
        (.finite sign mantissa exponent positive)).toNat =
      signBit sign * 2 ^ 31 +
        if mantissa < 2 ^ 23 then mantissa
        else (exponent + 150).toNat * 2 ^ 23 + (mantissa - 2 ^ 23) := by
  have biased : (exponent + Format.binary32.exponentBias +
      Format.binary32.mantissaBitsWithoutImplicit).toNat = (exponent + 150).toNat := by
    show (exponent + 127 + 23).toNat = _
    congr 1
    omega
  have small : ¬2 ^ 8 ≤ (exponent + 150).toNat + 1 := by omega
  have mantissaBits : Format.binary32.mantissaBits = 24 := rfl
  rw [UnpackedFloat.pack]
  dsimp only
  rw [biased, mantissaBits, if_neg small]
  by_cases short : mantissa < 2 ^ 23
  · have bits : ¬mantissa.log2 + 1 = 24 := by
      have := (Nat.log2_lt (Nat.ne_of_gt positive)).mpr short
      omega
    rw [if_neg bits, if_pos short]
    refine (toNat_packComponents sign 0#8 _).trans ?_
    rw [BitVec.toNat_ofNat, BitVec.toNat_ofNat, Nat.mod_eq_of_lt short]
    omega
  · have bits : mantissa.log2 + 1 = 24 := by
      have least := (Nat.le_log2 (Nat.ne_of_gt positive)).mpr (Nat.le_of_not_lt short)
      have most := (Nat.log2_lt (Nat.ne_of_gt positive)).mpr narrow
      omega
    rw [if_pos bits, if_neg short]
    refine (toNat_packComponents sign _ _).trans ?_
    rw [BitVec.toNat_ofNat, BitVec.toNat_ofNat]
    omega

/-- Packing a number that fits loses nothing. -/
theorem unpack_pack {number : UnpackedFloat} (fits : Fits number) :
    UnpackedFloat.unpack Format.binary32
      (UnpackedFloat.pack Format.binary32 number) = number := by
  cases fits with
  | zero sign => cases sign <;> rfl
  | @finite sign mantissa exponent positive narrow lower upper full =>
      have packed := toNat_pack sign positive narrow lower upper
      generalize UnpackedFloat.pack Format.binary32
        (.finite sign mantissa exponent positive) = word at packed
      have bit : signBit sign ≤ 1 := by cases sign <;> decide
      have same : signOf word = sign := by
        have carried : word.toNat / 2 ^ 31 % 2 = signBit sign := by
          rw [packed]
          split <;> omega
        rw [signOf, carried]
        cases sign <;> rfl
      by_cases short : mantissa < 2 ^ 23
      · obtain rfl : exponent = -149 := full.resolve_left (Nat.not_le_of_lt short)
        rw [if_pos short] at packed
        have low : word.toNat / 2 ^ 23 % 2 ^ 8 = 0 := by omega
        have fraction : word.toNat % 2 ^ 23 = mantissa := by omega
        rw [unpack_eq (by omega), if_pos low, dif_pos (by omega)]
        simp only [same, fraction]
      · rw [if_neg short] at packed
        have high : word.toNat / 2 ^ 23 % 2 ^ 8 = (exponent + 150).toNat := by omega
        have fraction : 2 ^ 23 + word.toNat % 2 ^ 23 = mantissa := by omega
        rw [unpack_eq (by omega), if_neg (by omega)]
        simp only [same, fraction, high]
        congr 1
        omega

/-- The word of a finite number is that of a number that fits. -/
theorem fits_unpack {word : Word} (finite : word.toNat / 2 ^ 23 % 2 ^ 8 ≠ 255) :
    Fits (UnpackedFloat.unpack Format.binary32 word) := by
  rw [unpack_eq finite]
  split
  · split
    · exact .finite (by omega) (by omega) (by omega) (.inr rfl)
    · exact .zero _
  · exact .finite (by omega) (by omega) (by omega) (.inl (by omega))

/-- A number that fits is finite. -/
theorem finite_of_fits {word : Word}
    (fits : Fits (UnpackedFloat.unpack Format.binary32 word)) :
    word.toNat / 2 ^ 23 % 2 ^ 8 ≠ 255 := by
  intro top
  have isTop : @unpackExponent Format.binary32 word = -1#8 := by
    rw [← BitVec.toNat_inj, toNat_unpackExponent]
    exact top
  rw [UnpackedFloat.unpack] at fits
  dsimp only at fits
  rw [if_pos isTop] at fits
  split at fits <;> cases fits

end SinglePrecision

end SolidField
