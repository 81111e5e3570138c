import SolidField.Proofs.Numeric.Packing

/-!
# Rounding to single precision

The operations on unpacked numbers round the exact result to a nearest number that
fits.  Unless the result is out of range, it is off by at most one part in `2 ^ 24`
of the exact one, or of the least number with a full mantissa.
-/

namespace SolidField

namespace SinglePrecision

open Float.Model Float.Model.UnpackedFloat

/-! ## Values -/

/-- One with a sign. -/
def unit : Sign → ℚ
  | .negative => -1
  | .positive => 1

/-- The value of an unpacked number; what is not finite counts as zero. -/
def value : UnpackedFloat → ℚ
  | .finite sign mantissa exponent _ => unit sign * (mantissa * 2 ^ exponent)
  | _ => 0

theorem abs_unit (sign : Sign) : |unit sign| = 1 := by
  cases sign <;> simp [unit]

theorem apply_eq (sign : Sign) (n : Nat) : ((sign.apply n : ℤ) : ℚ) = unit sign * n := by
  cases sign <;> simp [Sign.apply, unit]

theorem unit_mul (sign other : Sign) : unit (sign * other) = unit sign * unit other := by
  cases sign <;> cases other <;> simp [unit]

theorem unit_div (sign other : Sign) : unit (sign / other) = unit sign / unit other := by
  cases sign <;> cases other
  · show (1 : ℚ) = -1 / -1
    norm_num
  · show (-1 : ℚ) = -1 / 1
    norm_num
  · show (-1 : ℚ) = 1 / -1
    norm_num
  · show (1 : ℚ) = 1 / 1
    norm_num

/-- A number that fits is a result that is close to what it should be. -/
structure Rounds (exact : ℚ) (number : UnpackedFloat) : Prop where
  fits : Fits number
  close : |value number - exact| ≤ 2⁻¹ ^ 24 * max |exact| (2⁻¹ ^ 126)

/-! ## Mantissas with residual bits -/

/-- The mantissa and its residual bits tell where a number lies. -/
def Locates (em : ExtendedMantissa) (y : ℚ) : Prop :=
  match em.roundBit, em.stickyBit with
  | false, false => y = em.mantissa
  | false, true => em.mantissa < y ∧ y < em.mantissa + 1 / 2
  | true, false => y = em.mantissa + 1 / 2
  | true, true => em.mantissa + 1 / 2 < y ∧ y < em.mantissa + 1

theorem mantissa_ofMantissaAndAccuracy (mantissa : Nat) (accuracy : Accuracy) :
    (ExtendedMantissa.ofMantissaAndAccuracy mantissa accuracy).mantissa = mantissa := by
  rcases accuracy with _ | (_ | _ | _) <;> rfl

theorem Locates.bounds {em : ExtendedMantissa} {y : ℚ} (locates : Locates em y) :
    em.mantissa ≤ y ∧ y < em.mantissa + 1 := by
  rcases em with ⟨mantissa, _ | _, _ | _⟩ <;> simp only [Locates] at locates
  · constructor <;> linarith
  · constructor <;> linarith
  · constructor <;> linarith
  · constructor <;> linarith

/-- Half the number lies where the bits that are left tell. -/
theorem Locates.shiftRightOne {em : ExtendedMantissa} {y : ℚ}
    (locates : Locates em y) : Locates em.shiftRightOne (y / 2) := by
  rcases em with ⟨mantissa, roundBit, stickyBit⟩
  have halves : (mantissa : ℚ) = 2 * (mantissa / 2 : Nat) + (mantissa % 2 : Nat) := by
    exact_mod_cast (Nat.div_add_mod mantissa 2).symm
  -- The last bit becomes the round bit, and the former round bit is sticky.
  rcases Nat.mod_two_eq_zero_or_one mantissa with even | odd
  · rw [even] at halves
    cases roundBit <;> cases stickyBit <;>
      simp only [Locates, ExtendedMantissa.shiftRightOne, even, bne_self_eq_false,
        Bool.or_false, Bool.or_true, Nat.cast_zero, add_zero] at locates halves ⊢ <;>
      first | linarith | constructor <;> linarith
  · rw [odd] at halves
    have isOdd : (1 != 0) = true := rfl
    cases roundBit <;> cases stickyBit <;>
      simp only [Locates, ExtendedMantissa.shiftRightOne, odd, isOdd,
        Bool.or_false, Bool.or_true, Nat.cast_one] at locates halves ⊢ <;>
      first | linarith | constructor <;> linarith

theorem Locates.shiftRight {em : ExtendedMantissa} {y : ℚ} (locates : Locates em y)
    (count : Nat) : Locates (em >>> count) (y / 2 ^ count) := by
  induction count with
  | zero =>
      rw [pow_zero, div_one]
      exact locates
  | succ count induction =>
      rw [pow_succ, ← div_div]
      exact induction.shiftRightOne

/-- Rounding takes one of the nearest. -/
theorem Locates.roundedMantissa_close {em : ExtendedMantissa} {y : ℚ}
    (locates : Locates em y) : |em.roundedMantissa - y| ≤ 1 / 2 := by
  rcases em with ⟨mantissa, roundBit, stickyBit⟩
  have remainder : ((mantissa % 2 : Nat) : ℚ) ≤ 1 := by
    exact_mod_cast Nat.le_of_lt_succ (Nat.mod_lt mantissa Nat.two_pos)
  have nonneg : (0 : ℚ) ≤ (mantissa % 2 : Nat) := Nat.cast_nonneg _
  rw [abs_le]
  cases roundBit <;> cases stickyBit <;>
    simp only [Locates, ExtendedMantissa.roundedMantissa, ExtendedMantissa.accuracy,
      Accuracy.roundToNearestEven, Nat.cast_add, Nat.cast_one] at locates ⊢ <;>
    constructor <;> linarith

/-- A quotient lies where its remainder tells. -/
theorem locates_div (numerator : Nat) {denominator : Nat} (positive : 0 < denominator) :
    Locates
      (.ofMantissaAndAccuracy (numerator / denominator)
        (accuracyOfFraction (numerator % denominator) denominator))
      (numerator / denominator) := by
  have nonzero : (0 : ℚ) < denominator := Nat.cast_pos.mpr positive
  have whole : (numerator : ℚ) =
      denominator * (numerator / denominator : Nat) + (numerator % denominator : Nat) := by
    exact_mod_cast (Nat.div_add_mod numerator denominator).symm
  have quotient : (numerator : ℚ) / denominator =
      (numerator / denominator : Nat) + (numerator % denominator : Nat) / denominator := by
    rw [whole]
    field_simp
  rw [quotient]
  generalize numerator / denominator = floor
  have below : ((numerator % denominator : Nat) : ℚ) < denominator :=
    Nat.cast_lt.mpr (Nat.mod_lt numerator positive)
  generalize numerator % denominator = remainder at below ⊢
  rw [accuracyOfFraction]
  split
  next zero =>
    rw [zero, Nat.cast_zero, zero_div, add_zero]
    rfl
  next some =>
    have some : (0 : ℚ) < remainder := Nat.cast_pos.mpr (Nat.pos_of_ne_zero some)
    rcases lt_trichotomy (2 * remainder) denominator with less | equal | more
    · rw [Nat.compare_eq_lt.mpr less]
      have less : (2 : ℚ) * remainder < denominator := by exact_mod_cast less
      refine ⟨lt_add_of_pos_right _ (by positivity), add_lt_add_right ?_ _⟩
      rw [div_lt_div_iff₀ nonzero two_pos]
      linarith
    · rw [Nat.compare_eq_eq.mpr equal]
      have equal : (2 : ℚ) * remainder = denominator := by exact_mod_cast equal
      show _ = _
      congr 1
      rw [div_eq_div_iff nonzero.ne' two_ne_zero]
      linarith
    · rw [Nat.compare_eq_gt.mpr more]
      have more : (denominator : ℚ) < 2 * remainder := by exact_mod_cast more
      refine ⟨add_lt_add_right ?_ _, add_lt_add_right ?_ _⟩
      · rw [div_lt_div_iff₀ two_pos nonzero]
        linarith
      · rwa [div_lt_one nonzero]

/-! ## Rounding mantissas -/

theorem targetExponent_eq (mantissa : Nat) (exponent : Int) :
    Format.binary32.targetExponent (totalExponent mantissa exponent) =
      max (mantissa.log2 + exponent - 23) (-149) := by
  show max ((mantissa.log2 : Int) + 1 + exponent - 24) (-149) = _
  congr 1
  omega

/-- Bits are dropped until the exponent is the one that the number should have. -/
theorem shiftToTargetExponent_eq {mantissa : Nat} {exponent target : Int}
    (accuracy : Accuracy) (isTarget : max (mantissa.log2 + exponent - 23) (-149) = target)
    (room : exponent ≤ target) :
    shiftToTargetExponent Format.binary32 mantissa exponent accuracy =
      (ExtendedMantissa.ofMantissaAndAccuracy mantissa accuracy >>>
        (target - exponent).toNat, target) := by
  rw [shiftToTargetExponent, targetExponent_eq, isTarget, shiftToExponent]
  have reached : exponent + (target - exponent).toNat = target := by omega
  rw [reached]

/-- A mantissa that was rounded up to one bit too many is shifted once more. -/
theorem carry_cases {mantissa : Nat} {exponent : Int} (atMost : mantissa ≤ 2 ^ 24)
    (lower : -149 ≤ exponent) :
    (mantissa < 2 ^ 24 ∧
      shiftToTargetExponent Format.binary32 mantissa exponent .exact =
        (⟨mantissa, false, false⟩, exponent)) ∨
    (mantissa = 2 ^ 24 ∧
      shiftToTargetExponent Format.binary32 mantissa exponent .exact =
        (⟨2 ^ 23, false, false⟩, exponent + 1)) := by
  rcases Nat.lt_or_eq_of_le atMost with narrow | rfl
  · refine .inl ⟨narrow, ?_⟩
    have bits : mantissa.log2 < 24 := by
      rcases Nat.eq_zero_or_pos mantissa with rfl | positive
      · decide
      · exact (Nat.log2_lt (Nat.ne_of_gt positive)).mpr narrow
    rw [shiftToTargetExponent, targetExponent_eq, shiftToExponent]
    have none : (max (mantissa.log2 + exponent - 23) (-149) - exponent).toNat = 0 := by
      omega
    rw [none, Nat.cast_zero, add_zero]
    rfl
  · refine .inr ⟨rfl, ?_⟩
    have bits : (2 ^ 24).log2 = 24 := by decide
    have target : max (((2 ^ 24).log2 : Int) + exponent - 23) (-149) = exponent + 1 := by
      rw [bits]
      omega
    rw [shiftToTargetExponent_eq .exact target (by omega)]
    have one : (exponent + 1 - exponent).toNat = 1 := by omega
    rw [one]
    rfl

/-- Half a unit in the last place is a small part of a number of full mantissa. -/
theorem half_le {z : ℚ} {exponent : Int} (full : 2 ^ 23 ≤ z ∨ exponent = -149) :
    1 / 2 * (2 : ℚ) ^ exponent ≤
      2⁻¹ ^ 24 * max |z * (2 : ℚ) ^ exponent| (2⁻¹ ^ 126) := by
  have positive : (0 : ℚ) < 2 ^ exponent := by positivity
  rcases full with full | rfl
  · have part : 2 ^ 23 * (2 : ℚ) ^ exponent ≤ max |z * 2 ^ exponent| (2⁻¹ ^ 126) :=
      (mul_le_mul_of_nonneg_right full positive.le).trans
        ((le_abs_self _).trans (le_max_left _ _))
    linarith
  · have least : (1 / 2 : ℚ) * 2 ^ (-149 : Int) = 2⁻¹ ^ 24 * 2⁻¹ ^ 126 := by norm_num
    rw [least]
    exact mul_le_mul_of_nonneg_left (le_max_right _ _) (by positivity)

/-- A mantissa in range makes a number that fits, and that has its value. -/
theorem fits_mantissa (sign : Sign) {mantissa : Nat} {exponent : Int}
    (narrow : mantissa < 2 ^ 24) (lower : -149 ≤ exponent) (upper : exponent ≤ 104)
    (full : 2 ^ 23 ≤ mantissa ∨ exponent = -149) :
    let number : UnpackedFloat :=
      if zero : mantissa = 0 then .zero sign
      else .finite sign mantissa exponent (Nat.pos_of_ne_zero zero)
    Fits number ∧ value number = unit sign * (mantissa * 2 ^ exponent) := by
  by_cases zero : mantissa = 0
  · rw [dif_pos zero, zero, Nat.cast_zero, zero_mul, mul_zero]
    exact ⟨.zero sign, rfl⟩
  · rw [dif_neg zero]
    exact ⟨.finite narrow lower upper full, rfl⟩

section

variable {sign : Sign} {mantissa : Nat} {exponent : Int} {accuracy : Accuracy} {y : ℚ}

/-- A mantissa that is rounded to one of the nearest makes a close number. -/
theorem rounds_mantissa {z : ℚ} (close : |mantissa - z| ≤ 1 / 2) (narrow : z < 2 ^ 24)
    (lower : -149 ≤ exponent) (full : 2 ^ 23 ≤ z ∨ exponent = -149)
    (inRange : z * 2 ^ exponent ≤ 2 ^ 127) :
    let final := shiftToTargetExponent Format.binary32 mantissa exponent .exact
    Rounds (unit sign * (z * 2 ^ exponent))
      (if zero : final.1.mantissa = 0 then .zero sign
        else .finite sign final.1.mantissa final.2 (Nat.pos_of_ne_zero zero)) := by
  intro final
  have positive : (0 : ℚ) < 2 ^ exponent := by positivity
  obtain ⟨below, above⟩ := abs_le.mp close
  have atMost : mantissa ≤ 2 ^ 24 := by
    have bound : (mantissa : ℚ) < (2 ^ 24 + 1 : Nat) := by
      push_cast
      linarith
    exact Nat.lt_succ_iff.mp (by exact_mod_cast bound)
  have stays : 2 ^ 23 ≤ mantissa ∨ exponent = -149 := by
    refine full.imp_left fun full => ?_
    have bound : ((2 ^ 23 : Nat) : ℚ) < mantissa + 1 := by
      push_cast
      linarith
    exact Nat.lt_succ_iff.mp (by exact_mod_cast bound)
  have off : |mantissa * (2 : ℚ) ^ exponent - z * 2 ^ exponent| ≤
      2⁻¹ ^ 24 * max |z * (2 : ℚ) ^ exponent| (2⁻¹ ^ 126) := by
    rw [← sub_mul, abs_mul, abs_of_pos positive]
    exact (mul_le_mul_of_nonneg_right close positive.le).trans (half_le full)
  have result : ∀ {number : UnpackedFloat}, Fits number →
      value number = unit sign * (mantissa * 2 ^ exponent) →
        Rounds (unit sign * (z * 2 ^ exponent)) number := by
    intro number fits same
    refine ⟨fits, ?_⟩
    rwa [same, ← mul_sub, abs_mul, abs_mul (unit sign) (z * _), abs_unit, one_mul,
      one_mul]
  rcases carry_cases atMost lower with ⟨narrowed, shifted⟩ | ⟨carried, shifted⟩
  · have upper : exponent ≤ 104 := by
      rcases full with full | rfl
      · have scaled : (2 : ℚ) ^ (23 + exponent) ≤ 2 ^ (127 : Int) := by
          rw [zpow_add₀ two_ne_zero]
          exact (mul_le_mul_of_nonneg_right full positive.le).trans inRange
        have := (zpow_le_zpow_iff_right₀ one_lt_two).mp scaled
        omega
      · decide
    simp only [final, shifted]
    obtain ⟨fits, same⟩ := fits_mantissa sign narrowed lower upper stays
    exact result fits same
  · have upper : exponent + 1 ≤ 104 := by
      rw [carried] at below above
      have scaled : (2 : ℚ) ^ (23 + exponent) < 2 ^ (127 : Int) := by
        rw [zpow_add₀ two_ne_zero]
        refine lt_of_lt_of_le (mul_lt_mul_of_pos_right ?_ positive) inRange
        push_cast at above
        norm_num
        linarith
      have := (zpow_lt_zpow_iff_right₀ one_lt_two).mp scaled
      omega
    simp only [final, shifted]
    have narrow : 2 ^ 23 < 2 ^ 24 := by decide
    have next : -149 ≤ exponent + 1 := by omega
    obtain ⟨fits, same⟩ := fits_mantissa sign narrow next upper (.inl le_rfl)
    refine result fits (same.trans ?_)
    rw [carried, zpow_add_one₀ two_ne_zero]
    push_cast
    ring

/--
A number that a mantissa and its accuracy locate is rounded to one that is close, if
the mantissa is full or the exponent so small that no bit of the result is missing.
-/
theorem rounds_roundWithAccuracy
    (locates : Locates (.ofMantissaAndAccuracy mantissa accuracy) y)
    (room : 2 ^ 23 ≤ mantissa ∨ exponent ≤ -149) (inRange : y * 2 ^ exponent ≤ 2 ^ 127) :
    Rounds (unit sign * (y * 2 ^ exponent))
      (roundWithAccuracy Format.binary32 sign mantissa exponent accuracy) := by
  obtain ⟨target, isTarget⟩ :
      ∃ target, max ((mantissa.log2 : Int) + exponent - 23) (-149) = target := ⟨_, rfl⟩
  have bits : 2 ^ 23 ≤ mantissa → 23 ≤ mantissa.log2 := fun full =>
    (Nat.le_log2 (by omega)).mpr full
  obtain ⟨count, shifted⟩ : ∃ count : Nat, target = exponent + count :=
    ⟨(target - exponent).toNat, by omega⟩
  have first := shiftToTargetExponent_eq accuracy isTarget (by omega)
  have amount : (target - exponent).toNat = count := by omega
  rw [amount] at first
  have kept : Locates (ExtendedMantissa.ofMantissaAndAccuracy mantissa accuracy >>> count)
      (y / 2 ^ count) := locates.shiftRight count
  have same : y * (2 : ℚ) ^ exponent = y / 2 ^ count * 2 ^ target := by
    rw [shifted, zpow_add₀ two_ne_zero, zpow_natCast]
    field_simp
  rw [same] at inRange ⊢
  rw [roundWithAccuracy, first]
  obtain ⟨least, most⟩ := locates.bounds
  rw [mantissa_ofMantissaAndAccuracy] at least most
  have power : (0 : ℚ) < 2 ^ count := by positivity
  refine rounds_mantissa kept.roundedMantissa_close ?_ (by omega) ?_ inRange
  · rw [div_lt_iff₀ power, ← pow_add]
    have wide : mantissa + 1 ≤ 2 ^ (24 + count) :=
      Nat.lt_log2_self.trans_le (Nat.pow_le_pow_right Nat.two_pos (by omega))
    exact most.trans_le (by exact_mod_cast wide)
  · rcases eq_or_ne target (-149) with low | high
    · exact .inr low
    · left
      have log : mantissa.log2 = 23 + count := by omega
      have nonzero : mantissa ≠ 0 := by
        rintro rfl
        rw [Nat.log2_zero] at log
        omega
      have wide : 2 ^ (23 + count) ≤ mantissa := log ▸ Nat.log2_self_le nonzero
      rw [le_div_iff₀ power, ← pow_add]
      exact le_trans (by exact_mod_cast wide) least

end

/-! ## Operations -/

/-- A number that fits is what it should be itself. -/
theorem Fits.rounds {number : UnpackedFloat} (fits : Fits number) :
    Rounds (value number) number where
  fits := fits
  close := by
    rw [sub_self, abs_zero]
    positivity

/-- Decreasing an exponent keeps the value. -/
theorem decreaseExponent_eq (mantissa : Nat) (exponent target : Int) :
    ∃ larger : Nat,
      decreaseExponent mantissa exponent target = (larger, min exponent target) ∧
        larger * (2 : ℚ) ^ min exponent target = mantissa * 2 ^ exponent := by
  obtain ⟨count, amount⟩ : ∃ count : Nat, (exponent - target).toNat = count := ⟨_, rfl⟩
  have split : exponent = min exponent target + count := by omega
  refine ⟨mantissa <<< count, ?_, ?_⟩
  · rw [decreaseExponent, amount]
    congr 1
    omega
  · rw [Nat.shiftLeft_eq]
    conv_rhs => rw [split, zpow_add₀ two_ne_zero, zpow_natCast]
    push_cast
    ring

section

variable {mantissa : Nat} {exponent : Int}

theorem rounds_round (sign : Sign) (positive : 0 < mantissa)
    (inRange : mantissa * (2 : ℚ) ^ exponent ≤ 2 ^ 127) :
    Rounds (unit sign * (mantissa * 2 ^ exponent))
      (UnpackedFloat.round Format.binary32 sign mantissa exponent) := by
  obtain ⟨target, isTarget⟩ :
      ∃ target, max ((mantissa.log2 : Int) + exponent - 23) (-149) = target := ⟨_, rfl⟩
  obtain ⟨larger, decreased, same⟩ := decreaseExponent_eq mantissa exponent target
  rw [UnpackedFloat.round, targetExponent_eq, isTarget, decreased]
  rw [← same] at inRange ⊢
  refine rounds_roundWithAccuracy rfl ?_ inRange
  rcases lt_or_ge (-149) (min exponent target) with high | low
  · left
    have power : (0 : ℚ) < 2 ^ min exponent target := by positivity
    have least : ((2 ^ mantissa.log2 : Nat) : ℚ) ≤ mantissa :=
      Nat.cast_le.mpr (Nat.log2_self_le (Nat.ne_of_gt positive))
    -- The first bit of the mantissa is the 24th above the target.
    have wide : (2 : ℚ) ^ (23 : Int) * 2 ^ min exponent target ≤
        larger * 2 ^ min exponent target := by
      rw [same, ← zpow_add₀ two_ne_zero]
      calc (2 : ℚ) ^ (23 + min exponent target)
          ≤ 2 ^ ((mantissa.log2 : Int) + exponent) :=
            zpow_le_zpow_right₀ one_le_two (by omega)
        _ = (2 ^ mantissa.log2 : Nat) * 2 ^ exponent := by
            rw [zpow_add₀ two_ne_zero, zpow_natCast, Nat.cast_pow, Nat.cast_ofNat]
        _ ≤ mantissa * 2 ^ exponent :=
            mul_le_mul_of_nonneg_right least (by positivity)
    have full := le_of_mul_le_mul_right wide power
    exact_mod_cast full
  · exact .inr low

theorem rounds_normalize {mantissa : Int}
    (inRange : |mantissa * (2 : ℚ) ^ exponent| ≤ 2 ^ 127) :
    Rounds (mantissa * 2 ^ exponent)
      (UnpackedFloat.normalize Format.binary32 mantissa exponent .positive) := by
  have power : (0 : ℚ) < 2 ^ exponent := by positivity
  rw [abs_mul, abs_of_pos power] at inRange
  rw [UnpackedFloat.normalize]
  rcases lt_trichotomy mantissa 0 with negative | rfl | positive
  · obtain ⟨size, rfl⟩ : ∃ size : Nat, mantissa = -size := ⟨(-mantissa).toNat, by omega⟩
    have natural : (- -(size : Int)).toNat = size := by omega
    rw [Int.cast_neg, Int.cast_natCast, abs_neg, Nat.abs_cast] at inRange
    have rounds := rounds_round .negative (by omega : 0 < size) inRange
    rw [unit, neg_one_mul, ← neg_mul] at rounds
    rw [Int.compare_eq_lt.mpr negative, Int.cast_neg, Int.cast_natCast]
    dsimp only
    rwa [natural]
  · rw [Int.cast_zero, zero_mul]
    exact (Fits.zero .positive).rounds
  · obtain ⟨size, rfl⟩ : ∃ size : Nat, mantissa = size := ⟨mantissa.toNat, by omega⟩
    rw [Int.cast_natCast, Nat.abs_cast] at inRange
    have rounds := rounds_round .positive (by omega : 0 < size) inRange
    rw [unit, one_mul] at rounds
    rw [Int.compare_eq_gt.mpr positive, Int.cast_natCast]
    exact rounds

end

section

variable {number other : UnpackedFloat}

/-- Numbers are added with the smaller one of their exponents. -/
theorem rounds_add (fits : Fits number) (otherFits : Fits other)
    (inRange : |value number + value other| ≤ 2 ^ 127) :
    Rounds (value number + value other)
      (UnpackedFloat.add Format.binary32 number other) := by
  cases fits with
  | zero sign =>
      cases otherFits with
      | zero otherSign =>
          have zero : value (.zero sign) + value (.zero otherSign) = 0 := add_zero 0
          rw [zero, UnpackedFloat.add]
          split <;> exact (Fits.zero _).rounds
      | finite narrow lower upper full =>
          rw [show value (.zero sign) = 0 from rfl, zero_add]
          exact (Fits.finite narrow lower upper full).rounds
  | @finite sign mantissa exponent positive narrow lower upper full =>
      cases otherFits with
      | zero otherSign =>
          rw [show value (.zero otherSign) = 0 from rfl, add_zero]
          exact (Fits.finite narrow lower upper full).rounds
      | @finite otherSign otherMantissa otherExponent otherPositive =>
          obtain ⟨larger, decreased, same⟩ :=
            decreaseExponent_eq mantissa exponent (min exponent otherExponent)
          obtain ⟨otherLarger, otherDecreased, otherSame⟩ :=
            decreaseExponent_eq otherMantissa otherExponent (min exponent otherExponent)
          rw [min_eq_right (min_le_left _ _)] at same
          rw [min_eq_right (min_le_right _ _)] at otherSame
          have sum : value (.finite sign mantissa exponent positive) +
              value (.finite otherSign otherMantissa otherExponent otherPositive) =
                ((sign.apply larger + otherSign.apply otherLarger : ℤ) : ℚ) *
                  2 ^ min exponent otherExponent := by
            rw [Int.cast_add, apply_eq, apply_eq, add_mul, mul_assoc, mul_assoc, same,
              otherSame, value, value]
          rw [sum] at inRange ⊢
          rw [UnpackedFloat.add]
          dsimp only
          rw [decreased, otherDecreased]
          exact rounds_normalize inRange

theorem fits_neg (fits : Fits number) :
    Fits number.neg ∧ value number.neg = -value number := by
  cases fits with
  | zero sign => exact ⟨.zero _, neg_zero.symm⟩
  | @finite sign mantissa exponent positive narrow lower upper full =>
      refine ⟨.finite narrow lower upper full, ?_⟩
      cases sign
      · show 1 * _ = -(-1 * _)
        ring
      · show -1 * _ = -(1 * _)
        ring

theorem apply_neg (sign : Sign) (n : Int) : (-sign).apply n = -sign.apply n := by
  cases sign
  · exact (Int.neg_neg n).symm
  · rfl

/-- Subtracting a number is adding its opposite. -/
theorem sub_eq_add (fits : Fits number) (otherFits : Fits other) :
    UnpackedFloat.sub Format.binary32 number other =
      UnpackedFloat.add Format.binary32 number other.neg := by
  cases fits <;> cases otherFits
  case finite.finite =>
    simp only [UnpackedFloat.sub, UnpackedFloat.add, UnpackedFloat.neg, apply_neg,
      Int.sub_eq_add_neg]
  all_goals rfl

theorem rounds_sub (fits : Fits number) (otherFits : Fits other)
    (inRange : |value number - value other| ≤ 2 ^ 127) :
    Rounds (value number - value other)
      (UnpackedFloat.sub Format.binary32 number other) := by
  obtain ⟨negFits, negValue⟩ := fits_neg otherFits
  rw [sub_eq_add_neg, ← negValue] at inRange ⊢
  rw [sub_eq_add fits otherFits]
  exact rounds_add fits negFits inRange

theorem rounds_mul (fits : Fits number) (otherFits : Fits other)
    (inRange : |value number * value other| ≤ 2 ^ 127) :
    Rounds (value number * value other)
      (UnpackedFloat.mul Format.binary32 number other) := by
  cases fits with
  | zero sign =>
      rw [show value (.zero sign) = 0 from rfl, zero_mul]
      cases otherFits <;> exact (Fits.zero _).rounds
  | @finite sign mantissa exponent positive narrow lower upper full =>
      cases otherFits with
      | zero otherSign =>
          rw [show value (.zero otherSign) = 0 from rfl, mul_zero]
          exact (Fits.zero _).rounds
      | @finite otherSign otherMantissa otherExponent otherPositive _ _ _ otherFull =>
          have product : value (.finite sign mantissa exponent positive) *
              value (.finite otherSign otherMantissa otherExponent otherPositive) =
                unit (sign * otherSign) * ((mantissa * otherMantissa : Nat) *
                  2 ^ (exponent + otherExponent)) := by
            rw [value, value, unit_mul, zpow_add₀ two_ne_zero, Nat.cast_mul]
            ring
          have room : 2 ^ 23 ≤ mantissa * otherMantissa ∨
              exponent + otherExponent ≤ -149 := by
            rcases full with full | low
            · exact .inl (full.trans (Nat.le_mul_of_pos_right _ otherPositive))
            · rcases otherFull with otherFull | otherLow
              · exact .inl (otherFull.trans (Nat.le_mul_of_pos_left _ positive))
              · exact .inr (by omega)
          rw [product] at inRange ⊢
          rw [abs_mul, abs_unit, one_mul] at inRange
          exact rounds_roundWithAccuracy rfl room ((le_abs_self _).trans inRange)

/-- A quotient is taken of a numerator with as many more bits as the result needs. -/
theorem divCore_eq {mantissa otherMantissa : Nat} (exponent otherExponent : Int)
    (positive : 0 < mantissa) (otherPositive : 0 < otherMantissa) :
    ∃ (count : Nat) (target : Int), exponent - otherExponent = target + count ∧
      divCore Format.binary32 mantissa exponent otherMantissa otherExponent =
        (mantissa * 2 ^ count / otherMantissa, target,
          accuracyOfFraction (mantissa * 2 ^ count % otherMantissa) otherMantissa) ∧
      (2 ^ 23 ≤ mantissa * 2 ^ count / otherMantissa ∨ target ≤ -149) := by
  obtain ⟨target, isTarget⟩ : ∃ target, min (exponent - otherExponent)
      (Format.binary32.targetExponent (totalExponent mantissa exponent -
        totalExponent otherMantissa otherExponent)) = target := ⟨_, rfl⟩
  obtain ⟨count, shifted⟩ : ∃ count : Nat, exponent - otherExponent = target + count :=
    ⟨(exponent - otherExponent - target).toNat, by omega⟩
  refine ⟨count, target, shifted, ?_, ?_⟩
  · have amount : (exponent - otherExponent - target).toNat = count := by omega
    rw [divCore, isTarget, amount, Nat.shiftLeft_eq]
  · have bound : target ≤ max (mantissa.log2 + exponent -
        (otherMantissa.log2 + otherExponent) - 24) (-149) := by
      rw [← isTarget]
      refine (min_le_right _ _).trans (le_of_eq ?_)
      show max (((mantissa.log2 : Int) + 1 + exponent -
        (otherMantissa.log2 + 1 + otherExponent)) - 24) (-149) = _
      congr 1
      omega
    rcases lt_or_ge (-149) target with high | low
    · left
      have bits : 24 + otherMantissa.log2 ≤ mantissa.log2 + count := by omega
      rw [Nat.le_div_iff_mul_le otherPositive]
      calc 2 ^ 23 * otherMantissa
          ≤ 2 ^ 23 * 2 ^ (otherMantissa.log2 + 1) :=
            Nat.mul_le_mul_left _ Nat.lt_log2_self.le
        _ = 2 ^ (24 + otherMantissa.log2) := by
            rw [← pow_add]
            congr 1
            omega
        _ ≤ 2 ^ (mantissa.log2 + count) := Nat.pow_le_pow_right Nat.two_pos bits
        _ = 2 ^ mantissa.log2 * 2 ^ count := pow_add _ _ _
        _ ≤ mantissa * 2 ^ count :=
            Nat.mul_le_mul_right _ (Nat.log2_self_le (Nat.ne_of_gt positive))
    · exact .inr low

/-- A quotient of values is one of mantissas, whatever bits the numerator is given. -/
theorem value_div_value (sign otherSign : Sign) {mantissa otherMantissa count : Nat}
    {exponent otherExponent target : Int} (positive : 0 < mantissa)
    (otherPositive : 0 < otherMantissa)
    (shifted : exponent - otherExponent = target + count) :
    value (.finite sign mantissa exponent positive) /
        value (.finite otherSign otherMantissa otherExponent otherPositive) =
      unit (sign / otherSign) *
        ((mantissa * 2 ^ count : Nat) / otherMantissa * 2 ^ target) := by
  have power : (2 : ℚ) ^ exponent = 2 ^ target * 2 ^ count * 2 ^ otherExponent := by
    rw [← zpow_natCast, ← zpow_add₀ two_ne_zero, ← zpow_add₀ two_ne_zero]
    congr 1
    omega
  have inexact : (2 : ℚ) ^ otherExponent ≠ 0 := by positivity
  rw [value, value, unit_div, power, mul_div_mul_comm, Nat.cast_mul, Nat.cast_pow,
    Nat.cast_ofNat]
  congr 1
  field_simp

theorem rounds_div (fits : Fits number) (otherFits : Fits other)
    (nonzero : value other ≠ 0) (inRange : |value number / value other| ≤ 2 ^ 127) :
    Rounds (value number / value other)
      (UnpackedFloat.div Format.binary32 number other) := by
  cases otherFits with
  | zero otherSign => exact absurd rfl nonzero
  | @finite otherSign otherMantissa otherExponent otherPositive =>
      cases fits with
      | zero sign =>
          rw [show value (.zero sign) = 0 from rfl, zero_div]
          exact (Fits.zero _).rounds
      | @finite sign mantissa exponent positive =>
          obtain ⟨count, target, shifted, core, room⟩ :=
            divCore_eq exponent otherExponent positive otherPositive
          rw [value_div_value sign otherSign positive otherPositive shifted] at inRange ⊢
          rw [abs_mul, abs_unit, one_mul] at inRange
          rw [UnpackedFloat.div, core]
          exact rounds_roundWithAccuracy (locates_div _ otherPositive) room
            ((le_abs_self _).trans inRange)

end

end SinglePrecision

end SolidField
