import Mathlib
import SolidField.Geometry.Value
import SolidField.Proofs.Geometry.Similarity
import SolidField.Proofs.Numeric.Error

/-!
# Errors of rounded similarities

What single precision makes of a similarity is near what exact arithmetic makes of the
same components.  A rotation takes seven roundings of each component and, if it hardly
lengthens vectors, at most five times their bound; a similarity takes the rounding of
the scaled point before and that of the translated one after.
-/

namespace SolidField

open Single

variable {exact other bound otherBound : Vec3 ℚ} {limit farther : ℚ}
  {steps otherSteps size otherSize : Nat}

/-! ## Vectors -/

namespace Vec3

/-- Every component is near the exact one, with a bound of its own. -/
structure Near (v : Vec3 Single) (exact bound : Vec3 ℚ) (steps size : Nat) : Prop where
  x : Single.Near v.x exact.x bound.x steps size
  y : Single.Near v.y exact.y bound.y steps size
  z : Single.Near v.z exact.z bound.z steps size

/-- Bounds of the components of a cross product. -/
def crossBound (v w : Vec3 ℚ) : Vec3 ℚ :=
  ⟨v.y * w.z + v.z * w.y, v.z * w.x + v.x * w.z, v.x * w.y + v.y * w.x⟩

variable {v w : Vec3 Single} {factor : Single} {exactFactor : ℚ}

theorem isFinite_iff :
    v.isFinite = true ↔
      v.x.isFinite = true ∧ v.y.isFinite = true ∧ v.z.isFinite = true := by
  rw [isFinite, Bool.and_eq_true, Bool.and_eq_true, and_assoc]
  rfl

theorem within_zero_iff :
    exact.Within limit 0 ↔ |exact.x| ≤ limit ∧ |exact.y| ≤ limit ∧ |exact.z| ≤ limit := by
  change |exact.x - 0| ≤ limit ∧ |exact.y - 0| ≤ limit ∧ |exact.z - 0| ≤ limit ↔ _
  rw [sub_zero, sub_zero, sub_zero]

theorem Within.mono {v w : Vec3 ℚ} (within : v.Within limit w)
    (atMost : limit ≤ farther) : v.Within farther w :=
  ⟨within.1.trans atMost, within.2.1.trans atMost, within.2.2.trans atMost⟩

theorem Within.trans {u v w : Vec3 ℚ} (within : u.Within limit v)
    (otherWithin : v.Within farther w) : u.Within (limit + farther) w :=
  ⟨(abs_sub_le _ _ _).trans (add_le_add within.1 otherWithin.1),
    (abs_sub_le _ _ _).trans (add_le_add within.2.1 otherWithin.2.1),
    (abs_sub_le _ _ _).trans (add_le_add within.2.2 otherWithin.2.2)⟩

theorem near_value (finite : v.isFinite = true) (bounded : v.value.Within limit 0)
    (sized : Sized size limit) : v.Near v.value (splat limit) 0 size := by
  obtain ⟨x_finite, y_finite, z_finite⟩ := isFinite_iff.mp finite
  obtain ⟨x_bounded, y_bounded, z_bounded⟩ := within_zero_iff.mp bounded
  exact ⟨Single.near_value x_finite x_bounded sized,
    Single.near_value y_finite y_bounded sized,
    Single.near_value z_finite z_bounded sized⟩

theorem Near.isFinite (near : v.Near exact bound steps size) : v.isFinite = true :=
  isFinite_iff.mpr ⟨near.x.finite, near.y.finite, near.z.finite⟩

theorem Near.within (near : v.Near exact (splat limit) steps size) :
    v.value.Within (limit * (growth ^ steps - 1)) exact :=
  ⟨near.x.close, near.y.close, near.z.close⟩

theorem Near.mono (near : v.Near exact bound steps size) (moreSteps : steps ≤ otherSteps)
    (moreSize : size ≤ otherSize) : v.Near exact bound otherSteps otherSize :=
  ⟨near.x.mono moreSteps moreSize, near.y.mono moreSteps moreSize,
    near.z.mono moreSteps moreSize⟩

/-- A common bound of all components. -/
theorem Near.splat (near : v.Near exact bound steps size) (x_le : bound.x ≤ limit)
    (y_le : bound.y ≤ limit) (z_le : bound.z ≤ limit) (sized : Sized size limit) :
    v.Near exact (splat limit) steps size :=
  ⟨near.x.weaken x_le sized, near.y.weaken y_le sized, near.z.weaken z_le sized⟩

theorem Near.neg (near : v.Near exact bound steps size) :
    (-v).Near (-exact) bound steps size :=
  ⟨near.x.neg, near.y.neg, near.z.neg⟩

theorem Near.add (near : v.Near exact bound steps size)
    (otherNear : w.Near other otherBound steps size) (range : size < 100)
    (few : steps ≤ 100) :
    (v + w).Near (exact + other) (bound + otherBound) (steps + 1) (size + 1) :=
  ⟨near.x.add otherNear.x range few, near.y.add otherNear.y range few,
    near.z.add otherNear.z range few⟩

theorem Near.scale (near : v.Near exact bound steps size)
    (factorNear : Single.Near factor exactFactor limit otherSteps otherSize)
    (range : size + otherSize ≤ 100) (few : steps + otherSteps ≤ 100) :
    (v.scale factor).Near (exact.scale exactFactor) (bound.scale limit)
      (steps + otherSteps + 1) (size + otherSize) :=
  ⟨near.x.mul factorNear range few, near.y.mul factorNear range few,
    near.z.mul factorNear range few⟩

theorem Near.dot (near : v.Near exact bound steps size)
    (otherNear : w.Near other otherBound otherSteps otherSize)
    (range : size + otherSize < 99) (few : steps + otherSteps < 99) :
    Single.Near (v.dot w) (exact.dot other) (bound.dot otherBound)
      (steps + otherSteps + 3) (size + otherSize + 2) := by
  have x := near.x.mul otherNear.x (by omega) (by omega)
  have y := near.y.mul otherNear.y (by omega) (by omega)
  have z := near.z.mul otherNear.z (by omega) (by omega)
  exact (x.add y (by omega) (by omega)).add (z.mono (by omega) (by omega)) (by omega)
    (by omega)

theorem Near.cross (near : v.Near exact bound steps size)
    (otherNear : w.Near other otherBound otherSteps otherSize)
    (range : size + otherSize < 100) (few : steps + otherSteps < 100) :
    (v.cross w).Near (exact.cross other) (bound.crossBound otherBound)
      (steps + otherSteps + 2) (size + otherSize + 1) where
  x := (near.y.mul otherNear.z range.le few.le).sub
    (near.z.mul otherNear.y range.le few.le) range few
  y := (near.z.mul otherNear.x range.le few.le).sub
    (near.x.mul otherNear.z range.le few.le) range few
  z := (near.x.mul otherNear.y range.le few.le).sub
    (near.y.mul otherNear.x range.le few.le) range few

end Vec3

/-! ## Rotations -/

namespace Rotation

/-- Finite components, and a length that is little more than one at most. -/
structure IsModerate (q : Rotation Single) : Prop where
  finite : q.isFinite = true
  short : q.value.lengthSquared ≤ 6 / 5

variable {q : Rotation Single} {v : Vec3 Single}

theorem isFinite_iff :
    q.isFinite = true ↔
      q.x.isFinite = true ∧ q.y.isFinite = true ∧ q.z.isFinite = true ∧
        q.w.isFinite = true := by
  rw [isFinite, Bool.and_eq_true, Bool.and_eq_true, Bool.and_eq_true, and_assoc,
    and_assoc]
  rfl

theorem value_conjugate (q : Rotation Single) : q.conjugate.value = q.value.conjugate := by
  ext <;> simp only [value, conjugate, value_neg]

theorem lengthSquared_conjugate (q : Rotation ℚ) :
    q.conjugate.lengthSquared = q.lengthSquared := by
  simp only [lengthSquared, conjugate]
  ring

theorem IsModerate.conjugate (moderate : q.IsModerate) : q.conjugate.IsModerate where
  finite := by
    obtain ⟨x_finite, y_finite, z_finite, w_finite⟩ := isFinite_iff.mp moderate.finite
    exact isFinite_iff.mpr ⟨(isFinite_neg _).trans x_finite,
      (isFinite_neg _).trans y_finite, (isFinite_neg _).trans z_finite, w_finite⟩
  short := by
    rw [value_conjugate, lengthSquared_conjugate]
    exact moderate.short

/-- A bound of a component of a moderate rotation that is not too small either. -/
def roof (component : ℚ) : ℚ :=
  |component| + 1 / 1000

/-- The bounds of the components, as a quaternion. -/
def roofs (q : Rotation ℚ) : Rotation ℚ :=
  ⟨roof q.x, roof q.y, roof q.z, roof q.w⟩

theorem near_component {component : Single} (finite : component.isFinite = true)
    (small : component.value * component.value ≤ 6 / 5) :
    Single.Near component component.value (roof component.value) 0 10 := by
  have nonneg := abs_nonneg component.value
  have atMost : |component.value| ≤ 2 :=
    abs_le.mpr ⟨by nlinarith, by nlinarith⟩
  refine Single.near_value finite ?_ ⟨?_, ?_⟩ <;> unfold roof
  · linarith
  · norm_num
    linarith
  · norm_num
    linarith

theorem roof_mul_self_le (component : ℚ) :
    roof component * roof component ≤ 51 / 50 * (component * component) + 1 / 10000 := by
  have same : |component| * |component| = component * component := abs_mul_abs_self _
  unfold roof
  nlinarith [sq_nonneg (|component| - 1 / 20)]

theorem lengthSquared_roofs_le {q : Rotation ℚ} (short : q.lengthSquared ≤ 6 / 5) :
    q.roofs.lengthSquared ≤ 5 / 4 := by
  have x_le := roof_mul_self_le q.x
  have y_le := roof_mul_self_le q.y
  have z_le := roof_mul_self_le q.z
  have w_le := roof_mul_self_le q.w
  unfold lengthSquared at short
  unfold lengthSquared roofs
  linarith

theorem IsModerate.near_components (moderate : q.IsModerate) :
    Single.Near q.x q.value.x q.value.roofs.x 0 10 ∧
      Single.Near q.y q.value.y q.value.roofs.y 0 10 ∧
      Single.Near q.z q.value.z q.value.roofs.z 0 10 ∧
      Single.Near q.w q.value.w q.value.roofs.w 0 10 := by
  obtain ⟨x_finite, y_finite, z_finite, w_finite⟩ := isFinite_iff.mp moderate.finite
  have short := moderate.short
  simp only [lengthSquared, value] at short
  have x_nonneg := mul_self_nonneg q.x.value
  have y_nonneg := mul_self_nonneg q.y.value
  have z_nonneg := mul_self_nonneg q.z.value
  have w_nonneg := mul_self_nonneg q.w.value
  exact ⟨near_component x_finite (by linarith), near_component y_finite (by linarith),
    near_component z_finite (by linarith), near_component w_finite (by linarith)⟩

/-- How long one component of a rotated vector can be, from the bounds of the others. -/
theorem turned_le {a b c d own next last : ℚ} (nonneg : 0 ≤ limit)
    (short : (a * a + c * c) + (b * b + d * d) ≤ 5 / 4)
    (sum : own + next + last = a + b + c)
    (squares : own * own + next * next + last * last = a * a + b * b + c * c) :
    limit * (d * d + (a * a + b * b + c * c)) +
        own * ((limit * a + limit * b + limit * c) * 2) +
        (next * limit + last * limit) * (d * 2) ≤ 5 * limit := by
  -- What is missing on the left is a sum of squares.
  have fourfold : own * ((own + next + last) * 2) + (next + last) * (d * 2) ≤
      3 * (own * own + next * next + last * last + d * d) := by
    nlinarith [sq_nonneg (next - d), sq_nonneg (last - d), sq_nonneg (own - next - last),
      sq_nonneg (next - last), sq_nonneg d]
  have atMost : (d * d + (a * a + b * b + c * c)) + own * ((a + b + c) * 2) +
      (next + last) * (d * 2) ≤ 5 := by
    rw [← sum]
    linarith
  calc _ = limit * ((d * d + (a * a + b * b + c * c)) + own * ((a + b + c) * 2) +
        (next + last) * (d * 2)) := by ring
    _ ≤ limit * 5 := mul_le_mul_of_nonneg_left atMost nonneg
    _ = 5 * limit := mul_comm _ _

/-- A rotated vector takes seven roundings more and is at most five times as long. -/
theorem IsModerate.near_apply (moderate : q.IsModerate)
    (near : v.Near exact (Vec3.splat limit) steps size) (range : size ≤ 74)
    (few : steps ≤ 90) :
    (q.apply v).Near (q.value.apply exact) (Vec3.splat (5 * limit)) (steps + 7)
      (size + 25) := by
  obtain ⟨x, y, z, w⟩ := moderate.near_components
  have axis : q.vector.Near q.value.vector q.value.roofs.vector 0 10 := ⟨x, y, z⟩
  have square := (w.mul w (by omega) (by omega)).mono (by omega : _ ≤ 3)
    (by omega : _ ≤ 22)
  have factor := square.sub (axis.dot axis (by omega) (by omega)) (by omega) (by omega)
  have along := (near.dot axis (by omega) (by omega)).mul near_two (by omega) (by omega)
  have double := w.mul near_two (by omega) (by omega)
  -- The parts are summed from the left, so the last one may take a rounding more.
  have pointPart := (near.scale factor (by omega) (by omega)).mono
    (by omega : _ ≤ steps + 5) (by omega : _ ≤ size + 23)
  have axisPart := (axis.scale along (by omega) (by omega)).mono
    (by omega : _ ≤ steps + 5) (by omega : _ ≤ size + 23)
  have crossPart := ((axis.cross near (by omega) (by omega)).scale double (by omega)
    (by omega)).mono (by omega : _ ≤ steps + 6) (by omega : _ ≤ size + 24)
  have sum := (pointPart.add axisPart (by omega) (by omega)).add crossPart (by omega)
    (by omega)
  have five : Sized 3 5 := ⟨by norm_num, by norm_num⟩
  have sized := (five.mul near.x.sized).mono (by omega : _ ≤ size + 25)
  have nonneg : 0 ≤ limit := near.x.sized.positive.le
  have short := lengthSquared_roofs_le moderate.short
  exact sum.splat (turned_le nonneg short rfl rfl)
    (turned_le nonneg short (by ring) (by ring))
    (turned_le nonneg short (by ring) (by ring)) sized

end Rotation

/-! ## Similarities -/

namespace Similarity

variable {t : Similarity Single} {p : Vec3 Single} {scale : ℚ} {translation : Vec3 ℚ}
  {scaleLimit translationLimit : ℚ} {scaleSteps scaleSize : Nat}

/-- A moved point takes the roundings of its scaling, its rotation and one addition. -/
theorem near_apply (moderate : t.rotation.IsModerate)
    (point : p.Near exact (Vec3.splat limit) steps size)
    (scaling : Single.Near t.scale scale scaleLimit scaleSteps scaleSize)
    (moving : t.translation.Near translation (Vec3.splat translationLimit)
      (steps + scaleSteps + 8) (size + scaleSize + 25))
    (range : size + scaleSize ≤ 74) (few : steps + scaleSteps < 90) :
    (t.apply p).Near ((⟨t.rotation.value, scale, translation⟩ : Similarity ℚ).apply exact)
      (Vec3.splat (5 * (limit * scaleLimit) + translationLimit))
      (steps + scaleSteps + 9) (size + scaleSize + 26) := by
  have scaled := point.scale scaling (by omega) (by omega)
  have turned := moderate.near_apply scaled range (by omega)
  exact turned.add moving (by omega) (by omega)

end Similarity

end SolidField
