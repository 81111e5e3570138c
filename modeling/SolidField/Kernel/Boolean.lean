import SolidField.Geometry.Vector

/-!
# Boolean combinations and offsets

Union, intersection and subtraction take a fillet radius; without a positive
one they are sharp.  Intersection and subtraction are unions of negated values,
so that one reduction serves all three.
-/

universe u

namespace SolidField

namespace Kernel

variable {α : Type u} [Scalar α]

/-- The value with the smaller distance, the first one if they are equal. -/
def sharpUnion (a b : Vec4 α) : Vec4 α :=
  if Scalar.atMost a.w b.w then a else b

/--
Union with a circular fillet.  Within the radius of both surfaces the distance
is the larger of the radius and the sharp distance, less the length of how far
the values lie within the radius.
-/
def roundUnion (a b : Vec4 α) (radius : α) : Vec4 α :=
  let sharp := sharpUnion a b
  if Scalar.atMost radius 0 then
    sharp
  else
    let within := (⟨radius - a.w, radius - b.w⟩ : Vec2 α).positivePart
    let length := within.length
    if Scalar.equal length 0 then
      sharp
    else
      let gradient :=
        (a.truncate.scale within.x + b.truncate.scale within.y).divide length
      gradient.extend (Scalar.max radius sharp.w - length)

/-- Intersection with a circular fillet. -/
def roundIntersection (a b : Vec4 α) (radius : α) : Vec4 α :=
  -(roundUnion (-a) (-b) radius)

/-- The first value without the second, with a circular fillet. -/
def roundSubtraction (a b : Vec4 α) (radius : α) : Vec4 α :=
  roundIntersection a (-b) radius

/-- Move the surface outward. -/
def offset (distance : α) (a : Vec4 α) : Vec4 α :=
  ⟨a.x - 0, a.y - 0, a.z - 0, a.w - distance⟩

/-- A wall on both sides of the surface. -/
def shell (halfThickness : α) (a : Vec4 α) : Vec4 α :=
  let sign : α := if Scalar.less a.w 0 then -1 else 1
  (a.truncate.scale sign).extend (Scalar.abs a.w - halfThickness)

end Kernel

end SolidField
