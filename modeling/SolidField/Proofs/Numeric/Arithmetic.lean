import SolidField.Numeric.Exact
import SolidField.Proofs.Numeric.Negation
import SolidField.Proofs.Numeric.Rounding

/-!
# Arithmetic in single precision

The result of an operation on finite numbers is the exact one, rounded.
-/

namespace SolidField

namespace Single

open SinglePrecision Float.Model

/-- A finite number that is close to what it should be. -/
structure Rounds (exact : ℚ) (x : Single) : Prop where
  finite : x.isFinite = true
  close : |x.value - exact| ≤ 2⁻¹ ^ 24 * max |exact| (2⁻¹ ^ 126)

/-! ## Unpacked numbers -/

/-- The number as the operations see it. -/
def unpacked (x : Single) : UnpackedFloat :=
  UnpackedFloat.unpack Format.binary32 x.bits.toBitVec

theorem isNegative_iff (x : Single) :
    x.isNegative = true ↔ ¬x.bits.toNat / 2 ^ 31 % 2 = 0 := by
  rw [isNegative, decide_eq_true_eq, UInt32.le_iff_toNat_le]
  have inside := x.bits.toNat_lt
  have weight : (0x80000000 : UInt32).toNat = 2 ^ 31 := rfl
  omega

theorem isFinite_iff (x : Single) :
    x.isFinite = true ↔ x.bits.toNat / 2 ^ 23 % 2 ^ 8 ≠ 255 := by
  have infinity : BinaryFormat.single.infinity = 255 * 2 ^ 23 := rfl
  rw [isFinite, decide_eq_true_eq, magnitude_eq, infinity]
  omega

theorem isFinite_iff_fits (x : Single) : x.isFinite = true ↔ Fits x.unpacked := by
  rw [isFinite_iff]
  exact ⟨fits_unpack, finite_of_fits⟩

theorem unit_signOf (x : Single) :
    unit (signOf x.bits.toBitVec) = if x.isNegative then -1 else 1 := by
  have bits : x.bits.toBitVec.toNat = x.bits.toNat := rfl
  rw [signOf, bits]
  by_cases negative : x.isNegative = true
  · rw [if_neg ((isNegative_iff x).mp negative), if_pos negative]
    rfl
  · rw [if_pos (not_not.mp (mt (isNegative_iff x).mpr negative)), if_neg negative]
    rfl

/-- The operations see the value of a finite number. -/
theorem value_unpacked {x : Single} (finite : x.isFinite = true) :
    SinglePrecision.value x.unpacked = x.value := by
  have inside := (isFinite_iff x).mp finite
  have bits : x.bits.toBitVec.toNat = x.bits.toNat := rfl
  have fraction : x.bits.toNat % 2 ^ 31 % 2 ^ 23 = x.bits.toNat % 2 ^ 23 := by omega
  have exponent : x.bits.toNat % 2 ^ 31 / 2 ^ 23 = x.bits.toNat / 2 ^ 23 % 2 ^ 8 := by
    omega
  have binade : BinaryFormat.single.binade = 2 ^ 23 := rfl
  rw [unpacked, unpack_eq inside, value, ← unit_signOf, units, BinaryFormat.units,
    magnitude_eq, binade, fraction, exponent, bits]
  generalize signOf x.bits.toBitVec = sign
  generalize x.bits.toNat / 2 ^ 23 % 2 ^ 8 = exponent
  generalize x.bits.toNat % 2 ^ 23 = fraction
  by_cases low : exponent = 0
  · rw [if_pos low, if_pos low]
    by_cases positive : 0 < fraction
    · rw [dif_pos positive, SinglePrecision.value, zpow_neg, ← div_eq_mul_inv]
      rfl
    · rw [dif_neg positive, Nat.eq_zero_of_not_pos positive, Nat.cast_zero, zero_div,
        mul_zero]
      rfl
  · rw [if_neg low, if_neg low, SinglePrecision.value]
    obtain ⟨lower, rfl⟩ := Nat.exists_eq_succ_of_ne_zero low
    have power : ((lower.succ : Nat) : Int) - 150 = lower - 149 := by omega
    rw [power, zpow_sub₀ two_ne_zero, zpow_natCast, Nat.succ_sub_one, Nat.pow_eq]
    push_cast
    rw [mul_div_assoc]
    rfl

/-! ## Operations -/

/-- What an operation returns has the bits of the rounded number. -/
theorem Rounds.of_unpacked {exact : ℚ} {number : UnpackedFloat} {x : Single}
    (rounds : SinglePrecision.Rounds exact number)
    (packed : x.bits.toBitVec = UnpackedFloat.pack Format.binary32 number) :
    Rounds exact x := by
  have same : x.unpacked = number := by
    rw [unpacked, packed, unpack_pack rounds.fits]
  have finite : x.isFinite = true := by
    rw [isFinite_iff_fits, same]
    exact rounds.fits
  refine ⟨finite, ?_⟩
  rw [← value_unpacked finite, same]
  exact rounds.close

theorem unpack_toFloat32 {x : Single} (finite : x.isFinite = true) :
    x.toFloat32.toModel.unpack = x.unpacked :=
  unpack_pack ((isFinite_iff_fits x).mp finite)

section

variable {x y : Single}

/-- An operation rounds if it does so on what it sees of its operands. -/
theorem rounds_operation (exact : ℚ → ℚ → ℚ)
    (operation : UnpackedFloat → UnpackedFloat → UnpackedFloat)
    (finite : x.isFinite = true) (otherFinite : y.isFinite = true)
    (rounds : Fits x.unpacked → Fits y.unpacked →
      SinglePrecision.value x.unpacked = x.value →
        SinglePrecision.value y.unpacked = y.value →
          SinglePrecision.Rounds (exact x.value y.value)
            (operation x.unpacked y.unpacked)) :
    Rounds (exact x.value y.value)
      (ofFloat32 (.ofModel (.pack
        (operation x.toFloat32.toModel.unpack y.toFloat32.toModel.unpack)))) := by
  rw [unpack_toFloat32 finite, unpack_toFloat32 otherFinite]
  exact .of_unpacked (rounds ((isFinite_iff_fits x).mp finite)
    ((isFinite_iff_fits y).mp otherFinite) (value_unpacked finite)
    (value_unpacked otherFinite)) rfl

theorem rounds_add (finite : x.isFinite = true) (otherFinite : y.isFinite = true)
    (inRange : |x.value + y.value| ≤ 2 ^ 127) : Rounds (x.value + y.value) (x + y) :=
  rounds_operation (· + ·) (UnpackedFloat.add Format.binary32) finite otherFinite
    fun fits otherFits same otherSame => by
      rw [← same, ← otherSame] at inRange ⊢
      exact SinglePrecision.rounds_add fits otherFits inRange

theorem rounds_sub (finite : x.isFinite = true) (otherFinite : y.isFinite = true)
    (inRange : |x.value - y.value| ≤ 2 ^ 127) : Rounds (x.value - y.value) (x - y) :=
  rounds_operation (· - ·) (UnpackedFloat.sub Format.binary32) finite otherFinite
    fun fits otherFits same otherSame => by
      rw [← same, ← otherSame] at inRange ⊢
      exact SinglePrecision.rounds_sub fits otherFits inRange

theorem rounds_mul (finite : x.isFinite = true) (otherFinite : y.isFinite = true)
    (inRange : |x.value * y.value| ≤ 2 ^ 127) : Rounds (x.value * y.value) (x * y) :=
  rounds_operation (· * ·) (UnpackedFloat.mul Format.binary32) finite otherFinite
    fun fits otherFits same otherSame => by
      rw [← same, ← otherSame] at inRange ⊢
      exact SinglePrecision.rounds_mul fits otherFits inRange

theorem rounds_div (finite : x.isFinite = true) (otherFinite : y.isFinite = true)
    (nonzero : y.value ≠ 0) (inRange : |x.value / y.value| ≤ 2 ^ 127) :
    Rounds (x.value / y.value) (x / y) :=
  rounds_operation (· / ·) (UnpackedFloat.div Format.binary32) finite otherFinite
    fun fits otherFits same otherSame => by
      rw [← otherSame] at nonzero
      rw [← same, ← otherSame] at inRange ⊢
      exact SinglePrecision.rounds_div fits otherFits nonzero inRange

/-- Negation is exact. -/
theorem value_neg (x : Single) : (-x).value = -x.value := by
  rw [value, value, units, units, magnitude_neg, isNegative_neg]
  cases x.isNegative <;> simp

end

end Single

end SolidField
