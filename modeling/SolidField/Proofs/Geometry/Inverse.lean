import Mathlib
import SolidField.Proofs.Geometry.Error

/-!
# Inverses of similarities in single precision

The inverse of a similarity turns by the conjugate of its rotation, which turns back
only if the rotation is a unit quaternion.  If it is not, then the way there and back
scales every point by the square of its squared length.  Nothing makes sure that a
valid similarity has a unit rotation, so that there are valid similarities whose
inverses do not take points back.
-/

universe u

namespace SolidField

open Single

namespace Rotation

variable {α : Type u} [ExactScalar α]

theorem conjugate_mul_self (q : Rotation α) :
    q.conjugate * q = ⟨0, 0, 0, q.lengthSquared⟩ := by
  ext <;> simp only [x_mul, y_mul, z_mul, w_mul, conjugate, lengthSquared] <;> ring

theorem apply_scalar (factor : α) (p : Vec3 α) :
    (⟨0, 0, 0, factor⟩ : Rotation α).apply p = p.scale (factor * factor) := by
  ext <;> simp [x_apply, y_apply, z_apply, vector, Vec3.dot]

/-- The conjugate turns back, and scales by the square of the squared length. -/
theorem conjugate_apply_apply (q : Rotation α) (p : Vec3 α) :
    q.conjugate.apply (q.apply p) = p.scale (q.lengthSquared * q.lengthSquared) := by
  rw [← apply_mul, conjugate_mul_self, apply_scalar]

end Rotation

namespace Similarity

/-- There and back, a point is scaled by the square of the rotation's squared length. -/
theorem inverse_apply_apply {α : Type u} [ExactScalar α] {t : Similarity α}
    (scaled : t.scale ≠ 0) (p : Vec3 α) : t.inverse.apply (t.apply p) =
      p.scale (t.rotation.lengthSquared * t.rotation.lengthSquared) := by
  have moved : t.apply p + -t.translation = t.rotation.apply (p.scale t.scale) := by
    ext <;> simp [apply]
  rw [inverse_apply, moved, Rotation.conjugate_apply_apply]
  ext <;> simp <;> field_simp

variable {t : Similarity Single} {p : Vec3 Single} {reach : ℚ}

/-- There and back takes nineteen roundings. -/
theorem near_inverse_apply_apply (moderate : t.rotation.IsModerate)
    (finite : t.scale.isFinite = true) (least : 1 / 1000 ≤ t.scale.value)
    (most : t.scale.value ≤ 1000) (translated : t.translation.isFinite = true)
    (moved : t.translation.value.Within reach 0) (sized : Sized 26 reach)
    (pointFinite : p.isFinite = true) (inside : p.value.Within 1000 0) :
    (t.inverse.apply (t.apply p)).Near
      (p.value.scale (t.rotation.value.lengthSquared * t.rotation.value.lengthSquared))
      (Vec3.splat (25000 + 10 * (reach / t.scale.value))) 19 82 := by
  have scaleSized : Sized 10 t.scale.value := ⟨by linarith, by linarith⟩
  have thousand : Sized 10 1000 := ⟨by norm_num, by norm_num⟩
  have scaling := near_value finite (abs_of_pos scaleSized.positive).le scaleSized
  have backScaling := near_one_div finite scaleSized (by norm_num)
  have point := Vec3.near_value pointFinite inside thousand
  have translation := Vec3.near_value translated moved sized
  have there := near_apply moderate point scaling
    (translation.mono (by norm_num) (by norm_num)) (by norm_num) (by norm_num)
  -- The inverse moves by the opposite translation, turned and scaled on its own.
  have turnedBack := moderate.conjugate.near_apply translation (by norm_num) (by norm_num)
  rw [Rotation.value_conjugate] at turnedBack
  have backMoving := turnedBack.neg.scale backScaling (by norm_num) (by norm_num)
  have back := near_apply (t := t.inverse) moderate.conjugate there backScaling
    (backMoving.mono (by norm_num) (by norm_num)) (by norm_num) (by norm_num)
  have turns : t.inverse.rotation.value = t.rotation.value.conjugate :=
    Rotation.value_conjugate _
  rw [turns] at back
  have limits : 5 * ((5 * (1000 * t.scale.value) + reach) * (1 / t.scale.value)) +
      5 * reach * (1 / t.scale.value) = 25000 + 10 * (reach / t.scale.value) := by
    have := scaleSized.positive.ne'
    field_simp
    ring
  have undone : t.value.inverse.apply (t.value.apply p.value) = p.value.scale
      (t.rotation.value.lengthSquared * t.rotation.value.lengthSquared) :=
    inverse_apply_apply scaleSized.positive.ne' p.value
  rw [← limits, ← undone]
  exact back

theorem isFinite_of_isValid (valid : t.isValid = true) :
    t.scale.isFinite = true ∧ t.rotation.isFinite = true ∧
      t.translation.isFinite = true := by
  simp only [isValid, Scalar.isPositiveFinite, Bool.and_eq_true] at valid
  exact ⟨valid.1.1.1.2, valid.1.1.2, valid.2⟩

/-- There and back, rounding is off by little if the translation is not too large. -/
theorem inverse_apply_apply_rounded (valid : t.isValid = true)
    (short : t.rotation.value.lengthSquared ≤ 6 / 5)
    (least : 1 / 1000 ≤ t.scale.value) (most : t.scale.value ≤ 1000)
    (moved : t.translation.value.Within reach 0) (oneLe : 1 ≤ reach)
    (far : reach ≤ 2 ^ 26) (finite : p.isFinite = true)
    (inside : p.value.Within 1000 0) :
    (t.inverse.apply (t.apply p)).isFinite = true ∧
      (t.inverse.apply (t.apply p)).value.Within
        (1 / 32 + reach / (80000 * t.scale.value))
        (p.value.scale
          (t.rotation.value.lengthSquared * t.rotation.value.lengthSquared)) := by
  obtain ⟨scaleFinite, rotationFinite, translated⟩ := isFinite_of_isValid valid
  have sized : Sized 26 reach := ⟨le_trans (by norm_num) oneLe, far⟩
  have near := near_inverse_apply_apply ⟨rotationFinite, short⟩ scaleFinite least most
    translated moved sized finite inside
  have positive : 0 < t.scale.value := by linarith
  have grown : growth ^ 19 - 1 ≤ 1 / 800000 := by norm_num [growth]
  refine ⟨near.isFinite, near.within.mono ?_⟩
  calc (25000 + 10 * (reach / t.scale.value)) * (growth ^ 19 - 1)
      ≤ (25000 + 10 * (reach / t.scale.value)) * (1 / 800000) := by gcongr
    _ = 1 / 32 + reach / (80000 * t.scale.value) := by
        field_simp
        ring

/-- Rounding is off by little more than one half if the translation is near. -/
theorem rounded_le (least : 1 / 1000 ≤ t.scale.value)
    (near : reach ≤ 40000 * t.scale.value) :
    1 / 32 + reach / (80000 * t.scale.value) ≤ 17 / 32 := by
  have half : reach / (80000 * t.scale.value) ≤ 1 / 2 := by
    rw [div_le_iff₀ (by linarith)]
    linarith
  linarith

/-- A number is hardly changed by the square of a factor that is almost one. -/
theorem abs_mul_square_sub_le {a factor : ℚ} (atMost : |a| ≤ 1000)
    (close : |factor - 1| ≤ 1 / 5000) :
    |a * (factor * factor) - a| ≤ 401 / 1000 := by
  have split : a * (factor * factor) - a = a * ((factor - 1) * (factor + 1)) := by ring
  have other : |factor + 1| ≤ 10001 / 5000 := by
    obtain ⟨low, high⟩ := abs_le.mp close
    exact abs_le.mpr ⟨by linarith, by linarith⟩
  calc |a * (factor * factor) - a|
      = |a| * (|factor - 1| * |factor + 1|) := by rw [split, abs_mul, abs_mul]
    _ ≤ 1000 * (1 / 5000 * (10001 / 5000)) := by gcongr
    _ ≤ 401 / 1000 := by norm_num

/--
The way there and back of a valid similarity whose rotation is not much longer than a
unit quaternion.  It ends near the point scaled by the square of the rotation's squared
length, and near the point itself if that length is almost one and the translation is
not too large for the scale.
-/
theorem inverse_apply_within (valid : t.isValid = true)
    (short : t.rotation.value.lengthSquared ≤ 6 / 5)
    (least : 1 / 1000 ≤ t.scale.value) (most : t.scale.value ≤ 1000)
    (moved : t.translation.value.Within reach 0) (oneLe : 1 ≤ reach)
    (far : reach ≤ 2 ^ 26) (finite : p.isFinite = true)
    (inside : p.value.Within 1000 0) :
    (t.inverse.apply (t.apply p)).isFinite = true ∧
      (t.inverse.apply (t.apply p)).value.Within
        (1 / 32 + reach / (80000 * t.scale.value))
        (p.value.scale
          (t.rotation.value.lengthSquared * t.rotation.value.lengthSquared)) ∧
      (|t.rotation.value.lengthSquared - 1| ≤ 1 / 5000 → reach ≤ 40000 * t.scale.value →
        (t.inverse.apply (t.apply p)).value.Within 1 p.value) := by
  obtain ⟨backFinite, rounded⟩ := inverse_apply_apply_rounded valid short least most moved
    oneLe far finite inside
  refine ⟨backFinite, rounded, fun close near => ?_⟩
  obtain ⟨x_le, y_le, z_le⟩ := Vec3.within_zero_iff.mp inside
  have restored : Vec3.Within (401 / 1000) (p.value.scale
      (t.rotation.value.lengthSquared * t.rotation.value.lengthSquared)) p.value :=
    ⟨abs_mul_square_sub_le x_le close, abs_mul_square_sub_le y_le close,
      abs_mul_square_sub_le z_le close⟩
  exact (rounded.trans restored).mono (by linarith [rounded_le least near])

/-- A third of a turn around the diagonal, to twice the size, and a move. -/
def thirdTurn : Similarity Single :=
  ⟨⟨.half, .half, .half, .half⟩, .two, ⟨1, -.two, .half⟩⟩

theorem thirdTurn_inverse_apply_within :
    (thirdTurn.isValid = true ∧ thirdTurn.rotation.value.lengthSquared ≤ 6 / 5 ∧
      1 / 1000 ≤ thirdTurn.scale.value ∧ thirdTurn.scale.value ≤ 1000 ∧
      thirdTurn.translation.value.Within 1000 0 ∧
      (⟨1, .two, 0⟩ : Vec3 Single).isFinite = true ∧
      (⟨1, .two, 0⟩ : Vec3 Single).value.Within 1000 0) ∧
    (thirdTurn.inverse.apply (thirdTurn.apply ⟨1, .two, 0⟩)).value.Within 1
      (⟨1, .two, 0⟩ : Vec3 Single).value := by
  have valid : thirdTurn.isValid = true := by decide +kernel
  have short : thirdTurn.rotation.value.lengthSquared ≤ 6 / 5 := by decide +kernel
  have least : 1 / 1000 ≤ thirdTurn.scale.value := by decide +kernel
  have most : thirdTurn.scale.value ≤ 1000 := by decide +kernel
  have moved : thirdTurn.translation.value.Within 1000 0 := by decide +kernel
  have finite : (⟨1, .two, 0⟩ : Vec3 Single).isFinite = true := by decide +kernel
  have inside : (⟨1, .two, 0⟩ : Vec3 Single).value.Within 1000 0 := by decide +kernel
  exact ⟨⟨valid, short, least, most, moved, finite, inside⟩,
    (inverse_apply_within valid short least most moved (by norm_num) (by norm_num) finite
      inside).2.2 (by decide +kernel) (by decide +kernel)⟩

/-- The square of a factor that is not almost one takes a thousand elsewhere. -/
theorem lt_abs_mul_square_sub {factor : ℚ} (nonneg : 0 ≤ factor)
    (apart : 1 / 1000 ≤ |factor - 1|) :
    199 / 100 < |1000 * (factor * factor) - 1000| := by
  rcases le_abs.mp apart with above | below
  · exact lt_abs.mpr (.inl (by nlinarith))
  · exact lt_abs.mpr (.inr (by nlinarith))

/--
A valid similarity with any other rotation has an inverse that does not take all points
back, however small the translation is.
-/
theorem exists_inverse_apply_not_within (valid : t.isValid = true)
    (short : t.rotation.value.lengthSquared ≤ 6 / 5)
    (least : 1 / 1000 ≤ t.scale.value) (most : t.scale.value ≤ 1000)
    (moved : t.translation.value.Within reach 0) (oneLe : 1 ≤ reach)
    (near : reach ≤ 40000 * t.scale.value)
    (apart : 1 / 1000 ≤ |t.rotation.value.lengthSquared - 1|) :
    ∃ p : Vec3 Single, p.isFinite = true ∧ p.value.Within 1000 0 ∧
      ¬(t.inverse.apply (t.apply p)).value.Within 1 p.value := by
  have finite : (⟨.ofNat 1000, 0, 0⟩ : Vec3 Single).isFinite = true := by decide +kernel
  have inside : (⟨.ofNat 1000, 0, 0⟩ : Vec3 Single).value.Within 1000 0 := by
    decide +kernel
  have thousand : (Single.ofNat 1000).value = 1000 := by decide +kernel
  refine ⟨_, finite, inside, fun within => ?_⟩
  obtain ⟨-, rounded⟩ := inverse_apply_apply_rounded valid short least most moved oneLe
    (by linarith) finite inside
  have nonneg : 0 ≤ t.rotation.value.lengthSquared :=
    add_nonneg (add_nonneg (mul_self_nonneg _) (mul_self_nonneg _))
      (add_nonneg (mul_self_nonneg _) (mul_self_nonneg _))
  have far := lt_abs_mul_square_sub nonneg apart
  rw [← thousand] at far
  have off := rounded.1
  rw [abs_sub_comm] at off
  have total := (abs_sub_le _ _ _).trans (add_le_add off within.1)
  exact absurd (far.trans_le total) (by linarith [rounded_le least near])

/-- Nothing turned, but twice as long a quaternion as that of the identity. -/
def stretched : Similarity Single :=
  ⟨⟨0, 0, 0, .two⟩, 1, 0⟩

theorem stretched_inverse_not_within :
    stretched.isValid = true ∧ 1 / 1000 ≤ stretched.scale.value ∧
      stretched.scale.value ≤ 1000 ∧ stretched.translation.value.Within 1000 0 ∧
      (⟨.ofNat 1000, 0, 0⟩ : Vec3 Single).value.Within 1000 0 ∧
      ¬(stretched.inverse.apply (stretched.apply ⟨.ofNat 1000, 0, 0⟩)).value.Within 1
        (⟨.ofNat 1000, 0, 0⟩ : Vec3 Single).value := by
  decide +kernel

/-- A unit rotation, up to rounding, to a thousandth of the size and far away. -/
def distant : Similarity Single :=
  ⟨⟨⟨0xbf7b51ba⟩, ⟨0xbe426868⟩, ⟨0xbbc6e2db⟩, ⟨0xbc4b14f9⟩⟩, ⟨0x3a83cee0⟩,
    ⟨⟨0x4477d420⟩, ⟨0x447638d5⟩, ⟨0x447a0000⟩⟩⟩

/-- For a translation that is too large for the scale, rounding alone takes too much. -/
theorem distant_inverse_not_within :
    distant.isValid = true ∧ |distant.rotation.value.lengthSquared - 1| ≤ 1 / 5000 ∧
      1 / 1000 ≤ distant.scale.value ∧ distant.translation.value.Within 1000 0 ∧
      (⟨⟨0x4479d9ba⟩, ⟨0x447679c2⟩, ⟨0xc47677e8⟩⟩ : Vec3 Single).value.Within 1000 0 ∧
      ¬(distant.inverse.apply
          (distant.apply ⟨⟨0x4479d9ba⟩, ⟨0x447679c2⟩, ⟨0xc47677e8⟩⟩)).value.Within 1
        (⟨⟨0x4479d9ba⟩, ⟨0x447679c2⟩, ⟨0xc47677e8⟩⟩ : Vec3 Single).value := by
  decide +kernel

end Similarity

end SolidField
