import Mathlib.Tactic.LinearCombination
import Mathlib.Tactic.Ring
import SolidField.Kernel.Mapping
import SolidField.Numeric.Exact
import SolidField.Shape.Lowering

/-!
# Similarities in exact arithmetic

Over an exact scalar, unit quaternions turn vectors as rotations do: a product turns
by both, the conjugate turns back.  Similarities with unit rotations are therefore
composed by `after` and undone by `inverse`.
-/

universe u

namespace SolidField

/-! ## Components -/

namespace Vec3

section Components

variable {α : Type u} [Scalar α] (v w : Vec3 α) (factor : α)

@[simp]
theorem x_add : (v + w).x = v.x + w.x := rfl

@[simp]
theorem y_add : (v + w).y = v.y + w.y := rfl

@[simp]
theorem z_add : (v + w).z = v.z + w.z := rfl

@[simp]
theorem x_neg : (-v).x = -v.x := rfl

@[simp]
theorem y_neg : (-v).y = -v.y := rfl

@[simp]
theorem z_neg : (-v).z = -v.z := rfl

@[simp]
theorem x_scale : (v.scale factor).x = v.x * factor := rfl

@[simp]
theorem y_scale : (v.scale factor).y = v.y * factor := rfl

@[simp]
theorem z_scale : (v.scale factor).z = v.z * factor := rfl

end Components

end Vec3

namespace Rotation

section Components

variable {α : Type u} [Scalar α] (l r : Rotation α)

theorem x_mul :
    (l * r).x = (l.w * r.x + l.x * r.w) + (l.y * r.z - l.z * r.y) := rfl

theorem y_mul :
    (l * r).y = (l.w * r.y - l.x * r.z) + (l.y * r.w + l.z * r.x) := rfl

theorem z_mul :
    (l * r).z = (l.w * r.z + l.x * r.y) + (-(l.y * r.x) + l.z * r.w) := rfl

theorem w_mul :
    (l * r).w = (l.w * r.w - l.x * r.x) + (-(l.y * r.y) - l.z * r.z) := rfl

end Components

/-! ## Unit rotations -/

/-- The quaternion has length one. -/
def IsUnit {α : Type u} [Scalar α] (q : Rotation α) : Prop :=
  q.lengthSquared = 1

instance {α : Type u} [Scalar α] [DecidableEq α] (q : Rotation α) :
    Decidable q.IsUnit :=
  inferInstanceAs (Decidable (_ = _))

variable {α : Type u} [ExactScalar α] {q r : Rotation α}

theorem IsUnit.conjugate (unit : q.IsUnit) : q.conjugate.IsUnit := by
  rw [IsUnit, lengthSquared] at unit
  rw [IsUnit, lengthSquared, Rotation.conjugate, ← unit]
  ring

theorem lengthSquared_mul (q r : Rotation α) :
    (q * r).lengthSquared = q.lengthSquared * r.lengthSquared := by
  simp only [lengthSquared, x_mul, y_mul, z_mul, w_mul]
  ring

theorem IsUnit.mul (unit : q.IsUnit) (other : r.IsUnit) : (q * r).IsUnit := by
  rw [IsUnit, lengthSquared_mul, unit, other, one_mul]

/-- Normalizing leaves a unit quaternion as it is. -/
theorem IsUnit.normalize_eq (unit : q.IsUnit) : q.normalize = q := by
  rw [IsUnit] at unit
  ext <;> simp only [normalize, unit, ExactScalar.sqrt_one, div_one]

/-- The conjugate of a unit quaternion is its inverse. -/
theorem IsUnit.conjugate_mul (unit : q.IsUnit) : q.conjugate * q = identity := by
  rw [IsUnit, lengthSquared] at unit
  ext <;> simp only [x_mul, y_mul, z_mul, w_mul, Rotation.conjugate, identity]
  case w => linear_combination unit
  all_goals ring

theorem conjugate_conjugate (q : Rotation α) : q.conjugate.conjugate = q := by
  ext <;> simp only [conjugate, neg_neg]

/-! ## Turning vectors -/

variable (q r)

theorem x_apply (p : Vec3 α) :
    (q.apply p).x =
      p.x * (q.w * q.w - q.vector.dot q.vector) +
        q.x * (p.dot q.vector * Scalar.two) +
        (q.y * p.z - q.z * p.y) * (q.w * Scalar.two) := rfl

theorem y_apply (p : Vec3 α) :
    (q.apply p).y =
      p.y * (q.w * q.w - q.vector.dot q.vector) +
        q.y * (p.dot q.vector * Scalar.two) +
        (q.z * p.x - q.x * p.z) * (q.w * Scalar.two) := rfl

theorem z_apply (p : Vec3 α) :
    (q.apply p).z =
      p.z * (q.w * q.w - q.vector.dot q.vector) +
        q.z * (p.dot q.vector * Scalar.two) +
        (q.x * p.y - q.y * p.x) * (q.w * Scalar.two) := rfl

theorem apply_identity (p : Vec3 α) : (identity : Rotation α).apply p = p := by
  ext <;> simp [x_apply, y_apply, z_apply, identity, vector, Vec3.dot]

/-- A product turns by its right side first. -/
theorem apply_mul (p : Vec3 α) : (q * r).apply p = q.apply (r.apply p) := by
  ext <;>
    simp only [x_apply, y_apply, z_apply, vector, Vec3.dot, x_mul, y_mul, z_mul,
      w_mul, ExactScalar.two_eq] <;>
    ring

theorem apply_add (p v : Vec3 α) : q.apply (p + v) = q.apply p + q.apply v := by
  ext <;>
    simp only [x_apply, y_apply, z_apply, vector, Vec3.dot, Vec3.x_add, Vec3.y_add,
      Vec3.z_add] <;>
    ring

theorem apply_scale (p : Vec3 α) (factor : α) :
    q.apply (p.scale factor) = (q.apply p).scale factor := by
  ext <;>
    simp only [x_apply, y_apply, z_apply, vector, Vec3.dot, Vec3.x_scale,
      Vec3.y_scale, Vec3.z_scale] <;>
    ring

theorem apply_neg (p : Vec3 α) : q.apply (-p) = -q.apply p := by
  ext <;>
    simp only [x_apply, y_apply, z_apply, vector, Vec3.dot, Vec3.x_neg, Vec3.y_neg,
      Vec3.z_neg] <;>
    ring

variable {q r}

theorem IsUnit.conjugate_apply (unit : q.IsUnit) (p : Vec3 α) :
    q.conjugate.apply (q.apply p) = p := by
  rw [← apply_mul, unit.conjugate_mul, apply_identity]

theorem IsUnit.apply_conjugate (unit : q.IsUnit) (p : Vec3 α) :
    q.apply (q.conjugate.apply p) = p := by
  have back := unit.conjugate.conjugate_apply p
  rwa [conjugate_conjugate] at back

/-- What compares as the identity is the identity. -/
theorem eq_identity_of_equal (same : q.equal identity = true) : q = identity := by
  simp only [equal, Bool.and_eq_true] at same
  ext
  · exact ExactScalar.eq_of_equal same.1.1.1
  · exact ExactScalar.eq_of_equal same.1.1.2
  · exact ExactScalar.eq_of_equal same.1.2
  · exact ExactScalar.eq_of_equal same.2

end Rotation

/-! ## Similarities -/

namespace Similarity

variable {α : Type u} [ExactScalar α] {t u : Similarity α}

theorem eq_identity_of_isIdentity (same : t.isIdentity = true) : t = identity := by
  simp only [isIdentity, equal, Vec3.equal, Bool.and_eq_true] at same
  ext1
  · exact Rotation.eq_identity_of_equal same.1.1
  · exact ExactScalar.eq_of_equal same.1.2
  · ext
    · exact ExactScalar.eq_of_equal same.2.1.1
    · exact ExactScalar.eq_of_equal same.2.1.2
    · exact ExactScalar.eq_of_equal same.2.2

theorem apply_identity (p : Vec3 α) : (identity : Similarity α).apply p = p := by
  rw [apply, identity, Rotation.apply_identity]
  ext <;> simp [Vec3.splat, show (0 : Vec3 α) = Vec3.splat 0 from rfl]

/-- A composite of unit rotations applies one similarity after the other. -/
theorem apply_after (unit : t.rotation.IsUnit) (other : u.rotation.IsUnit)
    (p : Vec3 α) : (t.after u).apply p = t.apply (u.apply p) := by
  have turned : (t.rotation * u.rotation).normalize = t.rotation * u.rotation :=
    (unit.mul other).normalize_eq
  simp only [apply, after, turned, Rotation.apply_mul, Rotation.apply_scale,
    Rotation.apply_add]
  ext <;> simp <;> ring

theorem isUnit_inverse (unit : t.rotation.IsUnit) : t.inverse.rotation.IsUnit :=
  unit.conjugate

theorem isUnit_after (unit : t.rotation.IsUnit) (other : u.rotation.IsUnit) :
    (t.after u).rotation.IsUnit := by
  rw [after, (unit.mul other).normalize_eq]
  exact unit.mul other

/-- The inverse takes off the translation, then turns back, then scales back. -/
theorem inverse_apply (t : Similarity α) (p : Vec3 α) : t.inverse.apply p =
    (t.rotation.conjugate.apply (p + -t.translation)).scale (1 / t.scale) := by
  rw [apply, inverse, Rotation.apply_scale, Rotation.apply_add, Rotation.apply_neg]
  ext <;> simp <;> ring

/-- The inverse of a similarity of a nonzero scale takes its points back. -/
theorem apply_inverse_apply (unit : t.rotation.IsUnit) (scaled : t.scale ≠ 0)
    (p : Vec3 α) : t.apply (t.inverse.apply p) = p := by
  have back (v : Vec3 α) : (v.scale (1 / t.scale)).scale t.scale = v := by
    ext <;> simp [scaled]
  rw [inverse_apply, apply, back, unit.apply_conjugate]
  ext <;> simp

end Similarity

/-! ## Transforms of values -/

namespace ValueTransform

variable {α : Type u} [ExactScalar α] {t u : ValueTransform α}

theorem eq_identity_of_isIdentity (same : t.isIdentity = true) :
    t = ⟨.identity, 1⟩ := by
  simp only [isIdentity, Bool.and_eq_true] at same
  rcases t with ⟨rotation, scale⟩
  rw [mk.injEq]
  exact ⟨Rotation.eq_identity_of_equal same.1, ExactScalar.eq_of_equal same.2⟩

theorem transformFrom_identity (a : Vec4 α) :
    Kernel.transformFrom .identity 1 a = a := by
  rw [Kernel.transformFrom, Rotation.apply_identity, mul_one]
  rfl

/-- A composite of unit rotations acts as one transform after the other. -/
theorem transformFrom_after (unit : t.rotation.IsUnit) (other : u.rotation.IsUnit)
    (a : Vec4 α) :
    Kernel.transformFrom (t.after u).rotation (t.after u).scale a =
      Kernel.transformFrom t.rotation t.scale
        (Kernel.transformFrom u.rotation u.scale a) := by
  rw [after, (unit.mul other).normalize_eq]
  simp only [Kernel.transformFrom, Rotation.apply_mul, Vec4.truncate_extend,
    Vec4.w_extend]
  rw [mul_assoc, mul_comm u.scale]

theorem isUnit_after (unit : t.rotation.IsUnit) (other : u.rotation.IsUnit) :
    (t.after u).rotation.IsUnit := by
  rw [after, (unit.mul other).normalize_eq]
  exact unit.mul other

end ValueTransform

end SolidField
