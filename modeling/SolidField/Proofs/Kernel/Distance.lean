import SolidField.Kernel.Primitive
import SolidField.Proofs.Geometry.Margin
import SolidField.Proofs.Kernel.Content

/-!
# Distances and boxes

The distance of a primitive tells how far its box is at least, and the distance of a
boolean is bounded by those of its operands.
-/

namespace SolidField

/-! ## Lengths -/

theorem Vec2.dot_self (v : Vec2 ℝ) : v.dot v = v.x * v.x + v.y * v.y := rfl

theorem Vec2.dot_self_nonneg (v : Vec2 ℝ) : 0 ≤ v.dot v :=
  add_nonneg (mul_self_nonneg v.x) (mul_self_nonneg v.y)

theorem Vec3.dot_self_nonneg (v : Vec3 ℝ) : 0 ≤ v.dot v :=
  add_nonneg (add_nonneg (mul_self_nonneg v.x) (mul_self_nonneg v.y))
    (mul_self_nonneg v.z)

theorem Vec2.positivePart_eq (v : Vec2 ℝ) :
    v.positivePart = ⟨v.x ⊔ 0, v.y ⊔ 0⟩ :=
  Vec2.ext (Scalar.max_eq _ _) (Scalar.max_eq _ _)

theorem Vec3.positivePart_eq (v : Vec3 ℝ) :
    v.positivePart = ⟨v.x ⊔ 0, v.y ⊔ 0, v.z ⊔ 0⟩ :=
  Vec3.ext (Scalar.max_eq _ _) (Scalar.max_eq _ _) (Scalar.max_eq _ _)

theorem Vec2.length_nonneg (v : Vec2 ℝ) : 0 ≤ v.length :=
  Real.sqrt_nonneg _

theorem Vec3.length_nonneg (v : Vec3 ℝ) : 0 ≤ v.length :=
  Real.sqrt_nonneg _

theorem Vec2.length_mul_self (v : Vec2 ℝ) : v.length * v.length = v.dot v :=
  Real.mul_self_sqrt v.dot_self_nonneg

theorem Vec3.length_mul_self (v : Vec3 ℝ) : v.length * v.length = v.dot v :=
  Real.mul_self_sqrt v.dot_self_nonneg

theorem Vec2.x_le_length (v : Vec2 ℝ) : v.x ≤ v.length :=
  Real.le_sqrt_of_sq_le (by rw [Vec2.dot_self]; nlinarith [mul_self_nonneg v.y])

theorem Vec2.y_le_length (v : Vec2 ℝ) : v.y ≤ v.length :=
  Real.le_sqrt_of_sq_le (by rw [Vec2.dot_self]; nlinarith [mul_self_nonneg v.x])

/-- Taking an amount off both coordinates takes it off the length. -/
theorem Vec2.excess_square_le (v : Vec2 ℝ) {amount : ℝ} (inside : 0 ≤ amount) :
    excess |v.x| amount * excess |v.x| amount +
        excess |v.y| amount * excess |v.y| amount ≤
      excess v.length amount * excess v.length amount := by
  have squares : |v.x| * |v.x| + |v.y| * |v.y| + 0 * 0 ≤ v.length * v.length := by
    rw [abs_mul_abs_self, abs_mul_abs_self, v.length_mul_self, v.dot_self]
    simp
  have parts := SolidField.excess_square_le (abs_nonneg v.x) (abs_nonneg v.y) le_rfl
    v.length_nonneg inside squares
  linarith [mul_self_nonneg (excess 0 amount)]

/-- Taking an amount off all coordinates takes it off the length. -/
theorem Vec3.excess_square_le (v : Vec3 ℝ) {amount : ℝ} (inside : 0 ≤ amount) :
    excess |v.x| amount * excess |v.x| amount +
          excess |v.y| amount * excess |v.y| amount +
        excess |v.z| amount * excess |v.z| amount ≤
      excess v.length amount * excess v.length amount := by
  refine SolidField.excess_square_le (abs_nonneg v.x) (abs_nonneg v.y)
    (abs_nonneg v.z) v.length_nonneg inside ?_
  rw [abs_mul_abs_self, abs_mul_abs_self, abs_mul_abs_self, v.length_mul_self,
    v.dot_self]

namespace Kernel

/-! ## Booleans -/

section Booleans

variable (a b radius : ℝ)

theorem unionDistance_eq :
    unionDistance a b radius =
      let length := (⟨radius - a, radius - b⟩ : Vec2 ℝ).positivePart.length
      if radius ≤ 0 ∨ length = 0 then min a b
      else max radius (min a b) - length := by
  simp only [unionDistance, Scalar.atMost_iff, Scalar.equal_iff, Scalar.max_eq,
    ← min_def, ← ite_or]

/-- Within the radius of neither operand, a union is sharp. -/
theorem unionDistance_of_le (far : radius ≤ min a b) :
    unionDistance a b radius = min a b := by
  rcases le_min_iff.mp far with ⟨a_far, b_far⟩
  have nothing : (⟨radius - a, radius - b⟩ : Vec2 ℝ).positivePart.length = 0 := by
    rw [Vec2.positivePart_eq, max_eq_right (sub_nonpos.mpr a_far),
      max_eq_right (sub_nonpos.mpr b_far), Vec2.length, Vec2.dot_self]
    simp
  rw [unionDistance_eq, if_pos (Or.inr nothing)]

/-- An operand of a union is as near, unless it lies within the radius. -/
theorem min_le_max_unionDistance :
    min a b ≤ max (unionDistance a b radius) radius := by
  rcases le_or_gt (min a b) radius with near | far
  · exact le_max_of_le_right near
  · exact le_max_of_le_left (unionDistance_of_le a b radius far.le).ge

/-- A union is as near as its operands. -/
theorem unionDistance_le : unionDistance a b radius ≤ min a b := by
  rcases le_total radius (min a b) with far | near
  · exact (unionDistance_of_le a b radius far).le
  · have depth : radius - min a b ≤
        (⟨radius - a, radius - b⟩ : Vec2 ℝ).positivePart.length := by
      rw [Vec2.positivePart_eq]
      rcases min_choice a b with same | same <;> rw [same]
      · exact (le_max_left _ 0).trans (Vec2.x_le_length ⟨_, max (radius - b) 0⟩)
      · exact (le_max_left _ 0).trans (Vec2.y_le_length ⟨max (radius - a) 0, _⟩)
    rw [unionDistance_eq, max_eq_left near]
    dsimp only
    split
    · exact le_rfl
    · linarith

/-- An intersection is as far as its operands. -/
theorem max_le_intersectionDistance :
    max a b ≤ -(unionDistance (-a) (-b) radius) := by
  rw [le_neg]
  exact (unionDistance_le (-a) (-b) radius).trans_eq (min_neg_neg a b)

end Booleans

/-! ## Primitives -/

section Primitives

variable {metric : Metric}

/-- What is longer than a vector is longer than its components taken together. -/
theorem mul_self_le_of_length_le {x y distance : ℝ}
    (atMost : (⟨x, y⟩ : Vec2 ℝ).positivePart.length ≤ distance) :
    max x 0 * max x 0 + max y 0 * max y 0 ≤ distance * distance := by
  have squares := mul_self_le_mul_self (Vec2.length_nonneg _) atMost
  rwa [Vec2.length_mul_self, Vec2.positivePart_eq] at squares

/-- The distance of a rectangle is that from its corner, beyond it. -/
theorem length_le_rectangleField (beyond sign : Vec2 ℝ) :
    beyond.positivePart.length ≤ max (rectangleField beyond sign).2 0 := by
  simp only [rectangleField, Scalar.less_iff]
  split
  · exact le_max_left _ _
  · next inside => exact le_max_of_le_right (not_lt.mp inside)

theorem length_le_boxField (beyond sign : Vec3 ℝ) :
    beyond.positivePart.length ≤ max (boxField beyond sign).2 0 := by
  simp only [boxField, Scalar.less_iff]
  split
  · exact le_max_left _ _
  · next inside => exact le_max_of_le_right (not_lt.mp inside)

theorem length_le_extrusionDistance (height profile z : ℝ) :
    (⟨profile, |z| - height * Scalar.half⟩ : Vec2 ℝ).positivePart.length ≤
      max (extrusionDistance height profile z) 0 := by
  simp only [extrusionDistance, Scalar.less_iff, Scalar.abs_eq]
  split
  · exact le_max_left _ _
  · next inside => exact le_max_of_le_right (not_lt.mp inside)

/-- An extrusion is as far as its profile. -/
theorem le_max_extrusionDistance (height profile z : ℝ) :
    profile ≤ max (extrusionDistance height profile z) 0 := by
  have long := length_le_extrusionDistance height profile z
  rw [Vec2.positivePart_eq] at long
  exact (le_max_left profile 0).trans ((Vec2.x_le_length ⟨_, _⟩).trans long)

end Primitives

end Kernel

namespace Shape

variable {metric : Metric}

open Kernel

theorem within_rectangle (halfSize : Vec2 ℝ) (point : Vec3 ℝ) :
    (rectangle halfSize).bounds.Within .planar metric
      (max (Kernel.rectangle halfSize point).w 0) point := by
  have far : excess |point.x| halfSize.x * excess |point.x| halfSize.x +
      excess |point.y| halfSize.y * excess |point.y| halfSize.y ≤ _ :=
    mul_self_le_of_length_le
      (length_le_rectangleField (point.truncate.abs - halfSize)
        point.truncate.signum)
  exact ⟨⟨excess |point.x| halfSize.x, excess |point.y| halfSize.y, 0⟩,
    .of_planar (le_max_right _ _) (excess_nonneg _ _) (excess_nonneg _ _) far,
    Aabb.reaches_of_excess_le le_rfl le_rfl nofun⟩

theorem within_box (halfExtents point : Vec3 ℝ) :
    (box halfExtents).bounds.Within .solid metric
      (max (Kernel.box halfExtents point).w 0) point := by
  have far := mul_self_le_mul_self (Vec3.length_nonneg _)
    (length_le_boxField (point.abs - halfExtents) point.signum)
  rw [Vec3.length_mul_self, Vec3.positivePart_eq] at far
  rw [bounds, Aabb.ofCenter_zero]
  exact ⟨⟨excess |point.x| halfExtents.x, excess |point.y| halfExtents.y,
    excess |point.z| halfExtents.z⟩,
    .of_dot_le (le_max_right _ _) (excess_nonneg _ _) (excess_nonneg _ _)
      (excess_nonneg _ _) far,
    Aabb.reaches_of_excess_le le_rfl le_rfl fun _ => le_rfl⟩

theorem within_circle {radius : ℝ} (size : 0 ≤ radius) (point : Vec3 ℝ) :
    (circle radius).bounds.Within .planar metric
      (max (Kernel.circle radius point).w 0) point :=
  ⟨⟨excess |point.x| radius, excess |point.y| radius, 0⟩,
    .of_planar (le_max_right _ _) (excess_nonneg _ _) (excess_nonneg _ _)
      (point.truncate.excess_square_le size),
    Aabb.reaches_of_excess_le le_rfl le_rfl nofun⟩

theorem within_sphere {radius : ℝ} (size : 0 ≤ radius) (point : Vec3 ℝ) :
    (sphere radius).bounds.Within .solid metric
      (max (Kernel.sphere radius point).w 0) point := by
  rw [bounds, Aabb.ofCenter_zero]
  exact ⟨⟨excess |point.x| radius, excess |point.y| radius, excess |point.z| radius⟩,
    .of_dot_le (le_max_right _ _) (excess_nonneg _ _) (excess_nonneg _ _)
      (excess_nonneg _ _) (point.excess_square_le size),
    Aabb.reaches_of_excess_le le_rfl le_rfl fun _ => le_rfl⟩

theorem w_cylinder (radius height : ℝ) (point : Vec3 ℝ) :
    (Kernel.cylinder radius height point).w =
      (rectangleField
        ⟨point.truncate.length - radius, |point.z| - height * Scalar.half⟩
        ⟨1, Scalar.signum point.z⟩).2 := by
  have same : |point.truncate.length| = point.truncate.length :=
    abs_of_nonneg point.truncate.length_nonneg
  rw [← same]
  rfl

theorem within_cylinder {radius : ℝ} (size : 0 ≤ radius) (height : ℝ)
    (point : Vec3 ℝ) :
    (cylinder radius height).bounds.Within .solid metric
      (max (Kernel.cylinder radius height point).w 0) point := by
  have far := mul_self_le_of_length_le (length_le_rectangleField
    ⟨point.truncate.length - radius, |point.z| - height * Scalar.half⟩
    ⟨1, Scalar.signum point.z⟩)
  rw [← w_cylinder] at far
  have round := point.truncate.excess_square_le size
  rw [bounds, Aabb.ofCenter_zero]
  exact ⟨⟨excess |point.x| radius, excess |point.y| radius,
    excess |point.z| (height * Scalar.half)⟩,
    .of_dot_le (le_max_right _ _) (excess_nonneg _ _) (excess_nonneg _ _)
      (excess_nonneg _ _) ((add_le_add_left round _).trans far),
    Aabb.reaches_of_excess_le le_rfl le_rfl fun _ => le_rfl⟩

/-! ## Solids of planar shapes -/

variable {profile : Shape ℝ} {point : Vec3 ℝ} {distance : ℝ}

theorem within_extrusion
    (within : profile.bounds.Within .planar metric (max distance 0) point)
    (height : ℝ) :
    (extrusion profile height).bounds.Within .solid metric
      (max (extrusionDistance height distance point.z) 0) point := by
  have far : max distance 0 * max distance 0 +
      excess |point.z| (height * Scalar.half) *
        excess |point.z| (height * Scalar.half) ≤ _ :=
    mul_self_le_of_length_le (length_le_extrusionDistance height distance point.z)
  rcases within with ⟨margin, admits, reaches⟩
  have slab := Aabb.le_add_of_excess_le
    (le_refl (excess |point.z| (height * Scalar.half)))
  rw [← neg_mul] at slab
  exact ⟨_, admits.extrude (excess_nonneg _ _) (le_max_right _ _) far,
    { x_min := reaches.x_min
      x_max := reaches.x_max
      y_min := reaches.y_min
      y_max := reaches.y_max
      z_min := fun _ => slab.1
      z_max := fun _ => slab.2 }⟩

theorem within_revolution
    (within : profile.bounds.Within .planar metric distance
      ⟨(⟨point.x, point.z⟩ : Vec2 ℝ).length, point.y, 0⟩) :
    (revolution profile).bounds.Within .solid metric distance point := by
  rcases within with ⟨margin, admits, reaches⟩
  have outer := reaches.x_max
  let radius := max |profile.bounds.min.x| |profile.bounds.max.x|
  have inside : profile.bounds.max.x ≤ radius :=
    (le_abs_self _).trans (le_max_right _ _)
  have nonneg : 0 ≤ radius := (abs_nonneg _).trans (le_max_left _ _)
  have left : excess (⟨point.x, point.z⟩ : Vec2 ℝ).length radius ≤ margin.x :=
    excess_le_iff.mpr ⟨by linarith, admits.x_nonneg⟩
  have split := (Vec2.excess_square_le ⟨point.x, point.z⟩ nonneg).trans
    (mul_self_le_mul_self (excess_nonneg _ _) left)
  have x := Aabb.le_add_of_excess_le (le_refl (excess |point.x| radius))
  have z := Aabb.le_add_of_excess_le (le_refl (excess |point.z| radius))
  refine ⟨_, admits.revolve (excess_nonneg _ _) (excess_nonneg _ _) split, ?_⟩
  simp only [bounds, Scalar.max_eq, Scalar.abs_eq]
  exact
    { x_min := x.1
      x_max := x.2
      y_min := reaches.y_min
      y_max := reaches.y_max
      z_min := fun _ => z.1
      z_max := fun _ => z.2 }

end Shape

end SolidField
