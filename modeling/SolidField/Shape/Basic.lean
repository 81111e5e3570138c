import SolidField.Geometry.Similarity

/-!
# Shapes

A shape is an expression tree: primitives combined by booleans, offsets,
extrusions, revolutions and similarities.  Planar shapes lie in the plane of the
first two axes and become solids by extrusion or revolution only.
-/

universe u

namespace SolidField

/-- The dimension of a shape. -/
inductive Dimension where
  | planar
  | solid
deriving DecidableEq, Repr, Inhabited

namespace Dimension

def axes : Dimension → Nat
  | planar => 2
  | solid => 3

/-- The dimension with a number of axes. -/
def ofAxes? : Nat → Option Dimension
  | 2 => some planar
  | 3 => some solid
  | _ => none

@[simp]
theorem ofAxes?_axes (dimension : Dimension) :
    ofAxes? dimension.axes = some dimension := by
  cases dimension <;> rfl

end Dimension

/-- A planar region or a solid, as an expression tree. -/
inductive Shape (α : Type u) where
  | rectangle (halfSize : Vec2 α)
  | circle (radius : α)
  | polygon (points : List (Vec2 α))
  | sphere (radius : α)
  | box (halfExtents : Vec3 α)
  /-- A cylinder around the third axis, centred at the origin. -/
  | cylinder (radius height : α)
  /-- A planar profile extruded to both sides of the plane. -/
  | extrusion (profile : Shape α) (height : α)
  /-- A planar profile revolved around the second axis. -/
  | revolution (profile : Shape α)
  | union (shapes : List (Shape α)) (radius : α)
  | intersection (shapes : List (Shape α)) (radius : α)
  | subtraction (base tool : Shape α) (radius : α)
  /-- A shape whose surface is moved outward. -/
  | offset (shape : Shape α) (distance : α)
  /-- A wall of the given thickness around the surface. -/
  | shell (shape : Shape α) (thickness : α)
  /-- A shape placed by a similarity. -/
  | transformed (shape : Shape α) (transform : Similarity α)
deriving Inhabited

namespace Shape

variable {α : Type u}

mutual

/-- The dimension; a boolean has that of its first operand. -/
def dimension : Shape α → Dimension
  | rectangle _ | circle _ | polygon _ => .planar
  | sphere _ | box _ | cylinder _ _ | extrusion _ _ | revolution _ => .solid
  | union shapes _ => firstDimension shapes
  | intersection shapes _ => firstDimension shapes
  | subtraction base _ _ => base.dimension
  | offset shape _ => shape.dimension
  | shell shape _ => shape.dimension
  | transformed shape _ => shape.dimension

/-- The dimension of the first shape of a list; of no shapes, solid. -/
def firstDimension : List (Shape α) → Dimension
  | [] => .solid
  | shape :: _ => shape.dimension

end

end Shape

end SolidField
