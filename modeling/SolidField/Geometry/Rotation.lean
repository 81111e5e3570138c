import SolidField.Geometry.Vector
import SolidField.Numeric.Angle

/-!
# Rotations

A rotation is a quaternion; it is a proper rotation when its length is one.
The product `l * r` turns by `r` first and then by `l`.
-/

universe u

namespace SolidField

/-- A quaternion with the vector part `(x, y, z)` and the scalar part `w`. -/
@[ext]
structure Rotation (α : Type u) where
  x : α
  y : α
  z : α
  w : α
deriving DecidableEq

namespace Rotation

variable {α : Type u}

/-- The components in order, the scalar part last. -/
def toList (q : Rotation α) : List α :=
  [q.x, q.y, q.z, q.w]

variable [Scalar α]

def identity : Rotation α :=
  ⟨0, 0, 0, 1⟩

def vector (q : Rotation α) : Vec3 α :=
  ⟨q.x, q.y, q.z⟩

/-- The opposite rotation of a unit quaternion. -/
def conjugate (q : Rotation α) : Rotation α :=
  ⟨-q.x, -q.y, -q.z, q.w⟩

/-- The squared length, summed in two pairs. -/
def lengthSquared (q : Rotation α) : α :=
  (q.x * q.x + q.z * q.z) + (q.y * q.y + q.w * q.w)

def normalize (q : Rotation α) : Rotation α :=
  let length := Scalar.sqrt q.lengthSquared
  ⟨q.x / length, q.y / length, q.z / length, q.w / length⟩

def isFinite (q : Rotation α) : Bool :=
  Scalar.isFinite q.x && Scalar.isFinite q.y &&
    Scalar.isFinite q.z && Scalar.isFinite q.w

def equal (q r : Rotation α) : Bool :=
  Scalar.equal q.x r.x && Scalar.equal q.y r.y &&
    Scalar.equal q.z r.z && Scalar.equal q.w r.w

/-- The rotation that turns by the right side first and then by the left. -/
instance : Mul (Rotation α) where
  mul l r :=
    { x := (l.w * r.x + l.x * r.w) + (l.y * r.z - l.z * r.y)
      y := (l.w * r.y - l.x * r.z) + (l.y * r.w + l.z * r.x)
      z := (l.w * r.z + l.x * r.y) + (-(l.y * r.x) + l.z * r.w)
      w := (l.w * r.w - l.x * r.x) + (-(l.y * r.y) - l.z * r.z) }

def apply (q : Rotation α) (point : Vec3 α) : Vec3 α :=
  let axis := q.vector
  point.scale (q.w * q.w - axis.dot axis) +
    axis.scale (point.dot axis * Scalar.two) +
    (axis.cross point).scale (q.w * Scalar.two)

/-- The rotation around a unit axis by an angle in radians. -/
def aroundAxis (axis : Vec3 Single) (angle : Single) : Rotation Single :=
  let halfAngle := angle * .half
  let part := axis.scale halfAngle.sin
  ⟨part.x, part.y, part.z, halfAngle.cos⟩

end Rotation

end SolidField
