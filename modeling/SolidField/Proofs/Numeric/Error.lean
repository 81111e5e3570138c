import SolidField.Proofs.Numeric.Arithmetic

/-!
# Errors of rounded arithmetic

A number that was computed in some steps is off by a factor of at most one and a
little for each of them, relative to a bound of the exact number.  The bound of a sum
or a product is that of its operands, so that the errors of a formula are read off
its form.  All bounds are far enough from the ends of the range that nothing
overflows, and that what underflows does not matter.
-/

namespace SolidField

namespace Single

/-- By how much a number may grow when it is rounded once. -/
def growth : ℚ :=
  1 + 2⁻¹ ^ 24

theorem one_le_growth : 1 ≤ growth := by
  norm_num [growth]

/-- Neither very small nor very large, in powers of two. -/
structure Sized (size : Nat) (bound : ℚ) : Prop where
  lower : 2⁻¹ ^ size ≤ bound
  upper : bound ≤ 2 ^ size

/-- A finite number that a formula was computed to, with a bound of what is exact. -/
structure Near (x : Single) (exact bound : ℚ) (steps size : Nat) : Prop where
  finite : x.isFinite = true
  bounded : |exact| ≤ bound
  sized : Sized size bound
  close : |x.value - exact| ≤ bound * (growth ^ steps - 1)

variable {x y : Single} {exact other bound otherBound : ℚ}
  {steps otherSteps size otherSize : Nat}

theorem Sized.positive (sized : Sized size bound) : 0 < bound :=
  lt_of_lt_of_le (by positivity) sized.lower

theorem Sized.mono (sized : Sized size bound) (atMost : size ≤ otherSize) :
    Sized otherSize bound where
  lower := (pow_le_pow_of_le_one (by norm_num) (by norm_num) atMost).trans sized.lower
  upper := sized.upper.trans (pow_le_pow_right₀ one_le_two atMost)

theorem Sized.mul (sized : Sized size bound) (otherSized : Sized otherSize otherBound) :
    Sized (size + otherSize) (bound * otherBound) where
  lower := by
    rw [pow_add]
    exact mul_le_mul sized.lower otherSized.lower (by positivity) sized.positive.le
  upper := by
    rw [pow_add]
    exact mul_le_mul sized.upper otherSized.upper otherSized.positive.le (by positivity)

theorem Sized.add (sized : Sized size bound) (otherSized : Sized size otherBound) :
    Sized (size + 1) (bound + otherBound) where
  lower := by
    have less : (2⁻¹ : ℚ) ^ (size + 1) ≤ 2⁻¹ ^ size :=
      pow_le_pow_of_le_one (by norm_num) (by norm_num) (Nat.le_succ size)
    linarith [sized.lower, otherSized.positive]
  upper := by
    rw [pow_succ]
    linarith [sized.upper, otherSized.upper]

/-- A hundred steps do not even double a number. -/
theorem growth_pow_le (few : steps ≤ 100) : growth ^ steps ≤ 2 := by
  refine (pow_le_pow_right₀ one_le_growth few).trans ?_
  norm_num [growth]

theorem one_le_growth_pow (steps : Nat) : 1 ≤ growth ^ steps :=
  one_le_pow₀ one_le_growth

theorem Near.mono (near : Near x exact bound steps size) (moreSteps : steps ≤ otherSteps)
    (moreSize : size ≤ otherSize) : Near x exact bound otherSteps otherSize where
  finite := near.finite
  bounded := near.bounded
  sized := near.sized.mono moreSize
  close := near.close.trans (mul_le_mul_of_nonneg_left
    (sub_le_sub_right (pow_le_pow_right₀ one_le_growth moreSteps) 1)
    near.sized.positive.le)

/-- A larger bound is one as well. -/
theorem Near.weaken (near : Near x exact bound steps size) (atMost : bound ≤ otherBound)
    (sized : Sized size otherBound) : Near x exact otherBound steps size where
  finite := near.finite
  bounded := near.bounded.trans atMost
  sized := sized
  close := near.close.trans (mul_le_mul_of_nonneg_right atMost
    (sub_nonneg.mpr (one_le_growth_pow steps)))

/-- One more rounding of a number that was computed in some steps. -/
theorem Near.of_rounds {between : ℚ}
    (rounds : |between| ≤ 2 ^ 127 → Rounds between x) (bounded : |exact| ≤ bound)
    (sized : Sized size bound) (range : size ≤ 100) (few : steps ≤ 100)
    (close : |between - exact| ≤ bound * (growth ^ steps - 1)) :
    Near x exact bound (steps + 1) size := by
  have atMost : |between| ≤ bound * growth ^ steps := by
    have := abs_sub_abs_le_abs_sub between exact
    linarith
  have inRange : bound * growth ^ steps ≤ 2 ^ 127 := by
    have large : bound ≤ 2 ^ 100 := (sized.mono range).upper
    have doubled := mul_le_mul large (growth_pow_le few)
      (zero_le_one.trans (one_le_growth_pow steps)) (by positivity)
    exact doubled.trans (by norm_num)
  have notTiny : 2⁻¹ ^ 126 ≤ bound * growth ^ steps := by
    have least : (2⁻¹ : ℚ) ^ 126 ≤ 2⁻¹ ^ 100 :=
      pow_le_pow_of_le_one (by norm_num) (by norm_num) (by norm_num)
    exact (least.trans (sized.mono range).lower).trans
      (le_mul_of_one_le_right sized.positive.le (one_le_growth_pow steps))
  obtain ⟨finite, rounded⟩ := rounds (atMost.trans inRange)
  refine ⟨finite, bounded, sized, ?_⟩
  calc |x.value - exact|
      ≤ |x.value - between| + |between - exact| := abs_sub_le _ _ _
    _ ≤ 2⁻¹ ^ 24 * (bound * growth ^ steps) + bound * (growth ^ steps - 1) :=
        add_le_add (rounded.trans (mul_le_mul_of_nonneg_left
          (max_le atMost notTiny) (by positivity))) close
    _ = bound * (growth ^ (steps + 1) - 1) := by
        rw [pow_succ, growth]
        ring

/-! ## Operations -/

theorem near_value (finite : x.isFinite = true) (bounded : |x.value| ≤ bound)
    (sized : Sized size bound) : Near x x.value bound 0 size where
  finite := finite
  bounded := bounded
  sized := sized
  close := by simp

theorem Near.neg (near : Near x exact bound steps size) :
    Near (-x) (-exact) bound steps size where
  finite := (isFinite_neg x).trans near.finite
  bounded := (abs_neg exact).trans_le near.bounded
  sized := near.sized
  close := by
    rw [value_neg, neg_sub_neg, abs_sub_comm]
    exact near.close

theorem Near.mul (near : Near x exact bound steps size)
    (otherNear : Near y other otherBound otherSteps otherSize)
    (range : size + otherSize ≤ 100) (few : steps + otherSteps ≤ 100) :
    Near (x * y) (exact * other) (bound * otherBound) (steps + otherSteps + 1)
      (size + otherSize) := by
  refine .of_rounds (rounds_mul near.finite otherNear.finite) ?_
    (near.sized.mul otherNear.sized) range few ?_
  · rw [abs_mul]
    exact mul_le_mul near.bounded otherNear.bounded (abs_nonneg _) near.sized.positive.le
  · have nonneg := near.sized.positive.le
    have grows := sub_nonneg.mpr (one_le_growth_pow steps)
    have split : x.value * y.value - exact * other =
        (x.value - exact) * (y.value - other) + exact * (y.value - other) +
          (x.value - exact) * other := by
      ring
    calc |x.value * y.value - exact * other|
        ≤ |x.value - exact| * |y.value - other| + |exact| * |y.value - other| +
            |x.value - exact| * |other| := by
          rw [split, ← abs_mul, ← abs_mul, ← abs_mul]
          exact abs_add_three _ _ _
      _ ≤ bound * (growth ^ steps - 1) * (otherBound * (growth ^ otherSteps - 1)) +
            bound * (otherBound * (growth ^ otherSteps - 1)) +
            bound * (growth ^ steps - 1) * otherBound := by
          gcongr
          · exact near.close
          · exact otherNear.close
          · exact near.bounded
          · exact otherNear.close
          · exact near.close
          · exact otherNear.bounded
      _ = bound * otherBound * (growth ^ (steps + otherSteps) - 1) := by
          rw [pow_add]
          ring

theorem Near.add (near : Near x exact bound steps size)
    (otherNear : Near y other otherBound steps size) (range : size < 100)
    (few : steps ≤ 100) :
    Near (x + y) (exact + other) (bound + otherBound) (steps + 1) (size + 1) := by
  refine .of_rounds (rounds_add near.finite otherNear.finite) ?_
    (near.sized.add otherNear.sized) range few ?_
  · exact (abs_add_le _ _).trans (add_le_add near.bounded otherNear.bounded)
  · rw [add_sub_add_comm, add_mul]
    exact (abs_add_le _ _).trans (add_le_add near.close otherNear.close)

theorem Near.sub (near : Near x exact bound steps size)
    (otherNear : Near y other otherBound steps size) (range : size < 100)
    (few : steps ≤ 100) :
    Near (x - y) (exact - other) (bound + otherBound) (steps + 1) (size + 1) := by
  refine .of_rounds (rounds_sub near.finite otherNear.finite) ?_
    (near.sized.add otherNear.sized) range few ?_
  · exact (abs_sub _ _).trans (add_le_add near.bounded otherNear.bounded)
  · rw [sub_sub_sub_comm, add_mul]
    exact (abs_sub _ _).trans (add_le_add near.close otherNear.close)

theorem value_one : (1 : Single).value = 1 := by
  decide +kernel

theorem near_two : Near two 2 2 0 1 where
  finite := by decide
  bounded := by norm_num
  sized := ⟨by norm_num, by norm_num⟩
  close := by
    have value_two : two.value = 2 := by decide +kernel
    rw [value_two, sub_self, abs_zero, pow_zero, sub_self, mul_zero]

theorem Sized.reciprocal (sized : Sized size bound) : Sized size (1 / bound) where
  lower := by
    rw [inv_pow, ← one_div]
    exact one_div_le_one_div_of_le sized.positive sized.upper
  upper := by
    rw [one_div_le sized.positive (by positivity), one_div, ← inv_pow]
    exact sized.lower

theorem near_one_div (finite : x.isFinite = true) (sized : Sized size x.value)
    (range : size ≤ 100) : Near (1 / x) (1 / x.value) (1 / x.value) 1 size := by
  have rounds := rounds_div (by decide : (1 : Single).isFinite = true) finite
    sized.positive.ne'
  rw [value_one] at rounds
  refine .of_rounds rounds ?_ sized.reciprocal range (Nat.zero_le _) ?_
  · exact (abs_of_pos (one_div_pos.mpr sized.positive)).le
  · simp

end Single

end SolidField
