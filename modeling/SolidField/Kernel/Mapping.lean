import SolidField.Geometry.Similarity

/-!
# Mappings of points and values

A transformed shape moves the evaluation point into the frame of its child and
the value of the child back.  Extrusions and revolutions make solids of planar
values.
-/

universe u

namespace SolidField

namespace Kernel

variable {α : Type u} [Scalar α]

/-- The register content of a point. -/
def pointValue (point : Vec3 α) : Vec4 α :=
  point.extend 0

/-- Move a point by a similarity. -/
def transformTo (t : Similarity α) (a : Vec4 α) : Vec4 α :=
  pointValue (t.apply a.truncate)

/-- Turn the gradient of a value and scale its distance. -/
def transformFrom (rotation : Rotation α) (scale : α) (a : Vec4 α) : Vec4 α :=
  (rotation.apply a.truncate).extend (a.w * scale)

/--
Extrude a planar value to both sides of the plane; the second register holds
the point.
-/
def extrusion (height : α) (profile point : Vec4 α) : Vec4 α :=
  let z := point.z
  let slab := Scalar.abs z - height * Scalar.half
  let slabGradient : Vec3 α := ⟨0, 0, if Scalar.less z 0 then -1 else 1⟩
  let outside := (⟨profile.w, slab⟩ : Vec2 α).positivePart
  let length := outside.length
  if Scalar.less 0 length then
    let gradient :=
      (profile.truncate.scale outside.x +
        slabGradient.scale outside.y).divide length
    gradient.extend length
  else if Scalar.less slab profile.w then
    profile.truncate.extend profile.w
  else
    slabGradient.extend slab

/-- Fold a point around the second axis into the half plane of its radius. -/
def revolutionTo (a : Vec4 α) : Vec4 α :=
  pointValue ⟨(⟨a.x, a.z⟩ : Vec2 α).length, a.y, 0⟩

/--
Unfold a planar value; the unfolded point in the second register gives the
direction of the radius.
-/
def revolutionFrom (profile point : Vec4 α) : Vec4 α :=
  let direction := (⟨point.x, point.z⟩ : Vec2 α).normalizeOrZero
  Vec3.extend
    ⟨profile.x * direction.x, profile.y, profile.x * direction.y⟩ profile.w

end Kernel

end SolidField
