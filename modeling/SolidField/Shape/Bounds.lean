import SolidField.Shape.Basic

/-!
# Bounding boxes

A box around every shape, computed along its tree.  The box of a planar shape
is flat.
-/

universe u

namespace SolidField

namespace Aabb

variable {α : Type u} [Scalar α]

/-- Combine the boxes of a list from the left; of none, a point at the origin. -/
def reduce (combine : Aabb α → Aabb α → Aabb α) : List (Aabb α) → Aabb α
  | [] => ofPoint 0
  | first :: rest => rest.foldl combine first

end Aabb

namespace Shape

variable {α : Type u} [Scalar α]

mutual

/-- A box around a shape. -/
def bounds : Shape α → Aabb α
  | rectangle halfSize => ⟨-(halfSize.extend 0), halfSize.extend 0⟩
  | circle radius => ⟨-⟨radius, radius, 0⟩, ⟨radius, radius, 0⟩⟩
  | polygon points =>
      (Aabb.ofPoints? (points.map (Vec2.extend · 0))).getD (.ofPoint 0)
  | sphere radius => .ofCenter 0 (.splat radius)
  | box halfExtents => .ofCenter 0 halfExtents
  | cylinder radius height =>
      .ofCenter 0 ⟨radius, radius, height * Scalar.half⟩
  | extrusion profile height =>
      let flat := profile.bounds
      ⟨flat.min.truncate.extend (-height * Scalar.half),
        flat.max.truncate.extend (height * Scalar.half)⟩
  | revolution profile =>
      let flat := profile.bounds
      let radius := Scalar.max (Scalar.abs flat.min.x) (Scalar.abs flat.max.x)
      ⟨⟨-radius, flat.min.y, -radius⟩, ⟨radius, flat.max.y, radius⟩⟩
  | union shapes radius =>
      (Aabb.reduce .union (allBounds shapes)).expanded (Scalar.max radius 0)
  | intersection shapes _ => Aabb.reduce .intersection (allBounds shapes)
  | subtraction base _ _ => base.bounds
  | offset shape distance => shape.bounds.expanded (Scalar.max distance 0)
  | shell shape thickness => shape.bounds.expanded (thickness * Scalar.half)
  | transformed shape transform => transform.applyAabb shape.bounds

/-- A box around each shape of a list. -/
def allBounds : List (Shape α) → List (Aabb α)
  | [] => []
  | shape :: shapes => shape.bounds :: allBounds shapes

end

end Shape

end SolidField
