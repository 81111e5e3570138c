import SolidField.Geometry.Aabb
import SolidField.Geometry.Rotation

/-!
# Similarity transforms

A similarity scales uniformly, then rotates, then translates.  Because the
scale is uniform, a distance field stays a distance field up to one factor.
-/

universe u

namespace SolidField

/-- A uniform scale, followed by a rotation, followed by a translation. -/
@[ext]
structure Similarity (α : Type u) where
  rotation : Rotation α
  scale : α
  translation : Vec3 α
deriving DecidableEq

namespace Similarity

variable {α : Type u} [Scalar α]

def identity : Similarity α :=
  ⟨.identity, 1, 0⟩

def ofTranslation (translation : Vec3 α) : Similarity α :=
  { identity with translation }

/-- A rotation alone, made a unit rotation. -/
def ofRotation (rotation : Rotation α) : Similarity α :=
  { identity with rotation := rotation.normalize }

def ofScale (scale : α) : Similarity α :=
  { identity with scale }

def apply (t : Similarity α) (point : Vec3 α) : Vec3 α :=
  t.rotation.apply (point.scale t.scale) + t.translation

/-- The way back, for a unit rotation. -/
def inverse (t : Similarity α) : Similarity α :=
  let rotation := t.rotation.conjugate
  let scale := 1 / t.scale
  ⟨rotation, scale, (-(rotation.apply t.translation)).scale scale⟩

/-- First the one given, then this one. -/
def after (t first : Similarity α) : Similarity α where
  rotation := (t.rotation * first.rotation).normalize
  scale := t.scale * first.scale
  translation :=
    t.rotation.apply (first.translation.scale t.scale) + t.translation

/-- A box around the moved corners of a box. -/
def applyAabb (t : Similarity α) (aabb : Aabb α) : Aabb α :=
  (Aabb.ofPoints? (aabb.vertices.map t.apply)).getD aabb

def equal (t u : Similarity α) : Bool :=
  t.rotation.equal u.rotation && Scalar.equal t.scale u.scale &&
    t.translation.equal u.translation

/-- Numerically the identity. -/
def isIdentity (t : Similarity α) : Bool :=
  t.equal identity

/-- The scale is positive, the rotation is not zero, and all is of bounded size. -/
def isValid (t : Similarity α) : Bool :=
  Scalar.isPositiveFinite t.scale && t.rotation.isFinite &&
    Scalar.less 0 t.rotation.lengthSquared && t.translation.isFinite

end Similarity

end SolidField
