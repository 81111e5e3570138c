import SolidField.Geometry.Vector

/-!
# Distance fields of the primitives

Each primitive maps a local point to a shape value: the gradient in the first
three components and the signed distance in the fourth.  The gradient of a
planar primitive has no third component.
-/

universe u

namespace SolidField

namespace Kernel

variable {α : Type u} [Scalar α]

/--
The gradient and distance of a rectangle, from the offset of a point beyond
its half extents and the signs of the quadrant.
-/
def rectangleField (beyond sign : Vec2 α) : Vec2 α × α :=
  let outside := beyond.positivePart
  let length := outside.length
  if Scalar.less 0 length then
    ((outside.divide length).times sign, length)
  else if Scalar.less beyond.y beyond.x then
    (⟨sign.x, 0⟩, beyond.x)
  else
    (⟨0, sign.y⟩, beyond.y)

/--
The gradient and distance of a box, from the offset of a point beyond its half
extents and the signs of the octant.
-/
def boxField (beyond sign : Vec3 α) : Vec3 α × α :=
  let outside := beyond.positivePart
  let length := outside.length
  if Scalar.less 0 length then
    ((outside.divide length).times sign, length)
  else if Scalar.atMost beyond.y beyond.x && Scalar.atMost beyond.z beyond.x then
    (⟨sign.x, 0, 0⟩, beyond.x)
  else if Scalar.atMost beyond.z beyond.y then
    (⟨0, sign.y, 0⟩, beyond.y)
  else
    (⟨0, 0, sign.z⟩, beyond.z)

def rectangle (halfSize : Vec2 α) (point : Vec3 α) : Vec4 α :=
  let p := point.truncate
  let (gradient, distance) := rectangleField (p.abs - halfSize) p.signum
  (gradient.extend 0).extend distance

def circle (radius : α) (point : Vec3 α) : Vec4 α :=
  let p := point.truncate
  (p.normalizeOrZero.extend 0).extend (p.length - radius)

def sphere (radius : α) (point : Vec3 α) : Vec4 α :=
  point.normalizeOrZero.extend (point.length - radius)

def box (halfExtents : Vec3 α) (point : Vec3 α) : Vec4 α :=
  let (gradient, distance) := boxField (point.abs - halfExtents) point.signum
  gradient.extend distance

/-- A cylinder around the third axis: a rectangle in its half plane. -/
def cylinder (radius height : α) (point : Vec3 α) : Vec4 α :=
  let radial := point.truncate
  let direction := radial.normalizeOrZero
  let profile : Vec2 α := ⟨radial.length, point.z⟩
  let (gradient, distance) :=
    rectangleField (profile.abs - ⟨radius, height * Scalar.half⟩)
      ⟨1, Scalar.signum point.z⟩
  Vec3.extend
    ⟨gradient.x * direction.x, gradient.x * direction.y, gradient.y⟩ distance

end Kernel

end SolidField
