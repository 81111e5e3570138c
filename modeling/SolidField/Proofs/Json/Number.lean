import Mathlib.Algebra.Order.Ring.Nat
import SolidField.Json.Reader

/-!
# Numbers survive JSON

A finite word, written as a decimal, has 112 digits at most and rounds to itself.
A finite single-precision number is therefore read back from its JSON form with the
same bits, the sign of a zero included.
-/

namespace SolidField

namespace BinaryFormat

variable (format : BinaryFormat)

/-- The number of fields in front of the implicit bit of a finite word. -/
def shiftOf (word : Nat) : Nat :=
  word / format.binade - 1

/-- The significand of a finite word, with its implicit bit. -/
def significandOf (word : Nat) : Nat :=
  if word / format.binade = 0 then word % format.binade
  else format.binade + word % format.binade

theorem binade_pos : 0 < format.binade :=
  Nat.two_pow_pos format.fractionBits

theorem units_eq (word : Nat) :
    format.units word = format.significandOf word * 2 ^ format.shiftOf word := by
  simp only [units, significandOf, shiftOf]
  split
  · next subnormal => simp [subnormal]
  · rfl

theorem significandOf_lt (word : Nat) :
    format.significandOf word < 2 ^ (format.fractionBits + 1) := by
  have inside := Nat.mod_lt word format.binade_pos
  have double : 2 ^ (format.fractionBits + 1) = 2 * format.binade := by
    rw [Nat.pow_succ, Nat.mul_comm]
    rfl
  rw [double, significandOf]
  split <;> omega

/-- The word is found again from its significand. -/
theorem word_eq (word : Nat) :
    format.shiftOf word * format.binade + format.significandOf word = word := by
  have split := Nat.div_add_mod' word format.binade
  rw [significandOf, shiftOf]
  split
  · next subnormal => simpa [subnormal] using split
  · next normal =>
      obtain ⟨shift, exponent⟩ := Nat.exists_eq_succ_of_ne_zero normal
      rw [exponent, Nat.succ_mul] at split
      rw [exponent, Nat.succ_sub_one]
      omega

/-- A shifted word has the implicit bit. -/
theorem le_significandOf {word : Nat} (shifted : 0 < format.shiftOf word) :
    2 ^ format.fractionBits ≤ format.significandOf word := by
  rw [shiftOf] at shifted
  rw [significandOf, if_neg (by omega)]
  exact Nat.le_add_right _ _

/-- What is rounded off from the units of a word is its shift. -/
theorem log2_units (word : Nat) :
    Nat.log2 (format.units word) - format.fractionBits = format.shiftOf word := by
  rw [units_eq]
  rcases Nat.eq_zero_or_pos (format.shiftOf word) with zero | positive
  · rw [zero, Nat.pow_zero, Nat.mul_one]
    rcases Nat.eq_zero_or_pos (format.significandOf word) with none | some
    · rw [none, Nat.log2_zero, Nat.zero_sub]
    · have := (Nat.log2_lt (Nat.ne_of_gt some)).mpr (format.significandOf_lt word)
      omega
  · have normal := format.le_significandOf positive
    have scale := Nat.two_pow_pos (format.shiftOf word)
    have nonzero : format.significandOf word * 2 ^ format.shiftOf word ≠ 0 :=
      Nat.ne_of_gt
        (Nat.mul_pos (Nat.lt_of_lt_of_le (Nat.two_pow_pos _) normal) scale)
    have exponent : Nat.log2 (format.significandOf word * 2 ^ format.shiftOf word) =
        format.fractionBits + format.shiftOf word := by
      rw [Nat.log2_eq_iff nonzero, Nat.add_right_comm, Nat.pow_add, Nat.pow_add]
      exact ⟨Nat.mul_le_mul_right _ normal,
        Nat.mul_lt_mul_of_pos_right (format.significandOf_lt word) scale⟩
    rw [exponent, Nat.add_sub_cancel_left]

/-- The units of a finite word round to the word. -/
theorem round_units_mul {word denominator : Nat} (finite : word < format.infinity)
    (positive : 0 < denominator) :
    format.round (format.units word * denominator) denominator = word := by
  have regroup : format.units word * denominator =
      format.significandOf word *
        (denominator * Nat.pow 2 (format.shiftOf word)) := by
    rw [units_eq, Nat.mul_assoc, Nat.mul_comm denominator]
    rfl
  have scale : 0 < denominator * Nat.pow 2 (format.shiftOf word) :=
    Nat.mul_pos positive (Nat.two_pow_pos _)
  simp only [round, Nat.mul_div_cancel _ positive, log2_units]
  rw [regroup, roundQuotient_mul _ scale, word_eq,
    Nat.min_eq_left (Nat.le_of_lt finite)]

end BinaryFormat

namespace Decimal

/-- A number below a power of ten has as many digits at most. -/
theorem digitCount_le {n count : Nat} (positive : 0 < count) (small : n < 10 ^ count) :
    digitCount n ≤ count :=
  (Nat.length_toDigits_le_iff (by decide) positive).mpr small

theorem digitCount_pos (n : Nat) : 0 < digitCount n :=
  List.length_pos_iff.mpr Nat.toDigits_ne_nil

section Exact

variable (format : BinaryFormat) (word : Nat)

/-- The places behind the point that a word needs. -/
def placesOf : Nat :=
  format.unitScale - format.shiftOf word

theorem exponent_ofWord :
    (ofWord format word).exponent = -(placesOf format word : Int) := rfl

theorem significand_ofWord :
    (ofWord format word).significand = format.significandOf word *
      2 ^ (format.shiftOf word - format.unitScale) * 5 ^ placesOf format word := rfl

/-- The decimal of a word stands for its units. -/
theorem significand_ofWord_mul :
    (ofWord format word).significand * 2 ^ format.unitScale =
      format.units word * 10 ^ placesOf format word := by
  have twos : 2 ^ (format.shiftOf word - format.unitScale) * 2 ^ format.unitScale =
      2 ^ format.shiftOf word * 2 ^ placesOf format word := by
    rw [← Nat.pow_add, ← Nat.pow_add, placesOf]
    congr 1
    omega
  have tens : 10 ^ placesOf format word =
      2 ^ placesOf format word * 5 ^ placesOf format word := by
    rw [← Nat.mul_pow]
  rw [significand_ofWord, format.units_eq, tens, Nat.mul_right_comm,
    Nat.mul_assoc (format.significandOf word), twos]
  ac_rfl

/-- The quotient of units is the units of the word, expanded by a power of ten. -/
theorem unitQuotient_ofWord :
    (ofWord format word).unitQuotient format =
      (format.units word * 10 ^ placesOf format word, 10 ^ placesOf format word) := by
  have units := significand_ofWord_mul format word
  have exponent := exponent_ofWord format word
  rw [unitQuotient]
  cases places : placesOf format word with
  | zero =>
      rw [places] at exponent units
      rw [exponent]
      simpa using units
  | succ places' =>
      rw [places] at exponent units
      rw [exponent]
      exact congrArg (·, 10 ^ (places' + 1)) units

end Exact

/-! ## Single precision -/

variable {word : Nat}

/-- The digits of a finite word are read in full. -/
theorem significand_ofWord_lt (finite : word < BinaryFormat.single.infinity) :
    (ofWord .single word).significand < 10 ^ JsonNumber.digitLimit := by
  have shift : BinaryFormat.single.shiftOf word ≤ 253 := by
    have exponent : word / 2 ^ 23 < 255 := (Nat.div_lt_iff_lt_mul (by decide)).mpr finite
    exact Nat.sub_le_sub_right (Nat.le_of_lt_succ exponent) 1
  have scale : 2 ^ (BinaryFormat.single.shiftOf word - 149) *
      5 ^ (149 - BinaryFormat.single.shiftOf word) ≤ 5 ^ 149 := by
    rcases Nat.le_total (BinaryFormat.single.shiftOf word) 149 with small | large
    · rw [Nat.sub_eq_zero_of_le small, Nat.pow_zero, Nat.one_mul]
      exact Nat.pow_le_pow_right (by decide) (Nat.sub_le _ _)
    · rw [Nat.sub_eq_zero_of_le large, Nat.pow_zero, Nat.mul_one]
      exact Nat.le_trans
        (Nat.pow_le_pow_right (by decide) (Nat.sub_le_sub_right shift 149)) (by decide)
  calc (ofWord .single word).significand
      = BinaryFormat.single.significandOf word *
          (2 ^ (BinaryFormat.single.shiftOf word - 149) *
            5 ^ (149 - BinaryFormat.single.shiftOf word)) := by
        rw [significand_ofWord, Nat.mul_assoc]
        rfl
    _ ≤ 2 ^ 24 * 5 ^ 149 :=
        Nat.mul_le_mul (Nat.le_of_lt (BinaryFormat.single.significandOf_lt word)) scale
    _ < 10 ^ JsonNumber.digitLimit := by decide

/-- The decimal of a finite word rounds to the word. -/
theorem round_ofWord (finite : word < BinaryFormat.single.infinity) :
    (ofWord .single word).round .single = word := by
  have digits := digitCount_le (by decide) (significand_ofWord_lt finite)
  have digit := digitCount_pos (ofWord .single word).significand
  have places : placesOf .single word ≤ 149 := Nat.sub_le _ _
  have limit : BinaryFormat.single.unitScale = 149 := rfl
  simp only [round, exponent_ofWord, unitQuotient_ofWord]
  split
  · next zero =>
      have none : BinaryFormat.single.significandOf word = 0 := by
        rw [significand_ofWord] at zero
        simpa [Nat.mul_eq_zero] using zero
      have shift : BinaryFormat.single.shiftOf word = 0 := by
        refine Nat.eq_zero_of_not_pos fun shifted => ?_
        have normal := BinaryFormat.single.le_significandOf shifted
        rw [none] at normal
        exact absurd normal (by decide)
      have found := BinaryFormat.single.word_eq word
      rw [none, shift, Nat.zero_mul] at found
      exact found
  · rw [if_neg (by rw [JsonNumber.digitLimit] at digits; omega),
      if_neg (by rw [JsonNumber.digitLimit] at digits; omega)]
    exact BinaryFormat.single.round_units_mul finite (Nat.pow_pos (by decide))

end Decimal

namespace Single

/-- A number is its sign and its magnitude. -/
theorem ofMagnitude_magnitude (x : Single) :
    ofMagnitude x.isNegative x.magnitude = x := by
  have masked : x.bits.toNat % 2 ^ 31 = (x.bits &&& 0x7fffffff).toNat := by
    rw [UInt32.toNat_and]
    exact (Nat.and_two_pow_sub_one_eq_mod _ 31).symm
  have split := Nat.div_add_mod x.bits.toNat (2 ^ 31)
  have small := Nat.mod_lt x.bits.toNat (Nat.two_pow_pos 31)
  have inWord := x.bits.toNat_lt
  have negative : x.isNegative = decide (2 ^ 31 ≤ x.bits.toNat) := rfl
  refine congrArg mk (UInt32.toNat_inj.mp ?_)
  rw [negative, UInt32.toNat_or, magnitude, UInt32.ofNat_toNat, ← masked]
  by_cases high : 2 ^ 31 ≤ x.bits.toNat
  · rw [if_pos (decide_eq_true high), Nat.or_comm]
    rw [show x.bits.toNat / 2 ^ 31 = 1 by omega,
      Nat.two_pow_add_eq_or_of_lt small 1] at split
    exact split
  · rw [if_neg (by simpa using high)]
    exact (Nat.or_zero _).trans (Nat.mod_eq_of_lt (Nat.lt_of_not_le high))

end Single

/-- A finite number is read back with the same bits. -/
theorem JsonNumber.toSingle?_ofSingle {x : Single} (finite : x.isFinite = true) :
    (JsonNumber.ofSingle x).toSingle? = some x := by
  have inside : x.magnitude < BinaryFormat.single.infinity := of_decide_eq_true finite
  have kept : (JsonNumber.ofSingle x).kept = Decimal.ofWord .single x.magnitude := by
    rw [JsonNumber.kept, if_neg (by simp [isBelowSigned, ofSingle])]
    exact if_pos (Decimal.significand_ofWord_lt inside)
  simp only [toSingle?, kept, Decimal.round_ofWord inside]
  rw [if_pos inside]
  exact congrArg some x.ofMagnitude_magnitude

namespace Json

/-- A number is read back exactly if it is finite; what is not finite is rejected. -/
theorem single?_ofSingle (x : Single) :
    (ofSingle x).single? = if x.isFinite then some x else none := by
  rw [ofSingle]
  split
  · next finite => exact JsonNumber.toSingle?_ofSingle finite
  · rfl

end Json

end SolidField
