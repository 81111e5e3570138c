import SolidField.Numeric.Real
import SolidField.Proofs.Geometry.Similarity
import SolidField.Shape.Bounds
import SolidField.Shape.Composite

/-!
# Guarded shapes

The distance of a shape is not always the distance to the shape: beyond a corner of an
intersection it is the distance to a face, which is less than that to the corner.
Offsets, shells and fillets reach beyond the surface up to a distance, and the box of
the shape is grown by as much.  For an intersection that is enough along the axes of
its operands, but not in every direction, and a rotation turns one into the other.

A shape is guarded up to a reach if the reach of what is built around it stays clear of
turned intersections, and if planar shapes are turned within their plane only.
-/

universe u

namespace SolidField

/-- The point lies in the box, along the axes of a dimension. -/
def Aabb.containsAlong {α : Type u} [Scalar α] (dimension : Dimension)
    (aabb : Aabb α) (point : Vec3 α) : Bool :=
  match dimension with
  | .planar =>
      Scalar.atMost aabb.min.x point.x && Scalar.atMost point.x aabb.max.x &&
        Scalar.atMost aabb.min.y point.y && Scalar.atMost point.y aabb.max.y
  | .solid => aabb.contains point

/-- How the distance from a box is measured. -/
inductive Metric where
  /-- Along each axis on its own. -/
  | axial
  /-- In every direction. -/
  | radial
deriving DecidableEq, Repr

namespace Rotation

variable {α : Type u} [Scalar α]

/-- The third axis is turned into itself or its opposite. -/
def KeepsThirdAxis (q : Rotation α) : Prop :=
  (q.apply ⟨0, 0, 1⟩).x = 0 ∧ (q.apply ⟨0, 0, 1⟩).y = 0

/-- Cubes around the origin are turned into themselves. -/
def KeepsCubes (q : Rotation ℝ) : Prop :=
  ∀ (v : Vec3 ℝ) (bound : ℝ), |v.x| ≤ bound → |v.y| ≤ bound → |v.z| ≤ bound →
    |(q.apply v).x| ≤ bound ∧ |(q.apply v).y| ≤ bound ∧ |(q.apply v).z| ≤ bound

end Rotation

namespace Shape

/-- Booleans have operands, and similarities have unit rotations and positive scales. -/
def Placed (shape : Shape ℝ) : Prop :=
  shape.hasOperands = true ∧
    ∀ transform ∈ shape.similarities, transform.rotation.IsUnit ∧ 0 < transform.scale

/--
The rules for shapes whose box is far enough, in a metric, from every point whose
distance is at most a reach.
-/
inductive Guarded : Dimension → Metric → ℝ → Shape ℝ → Prop
  | rectangle {metric reach halfSize} :
      Guarded .planar metric reach (rectangle halfSize)
  | circle {metric reach radius} (size : 0 ≤ radius) :
      Guarded .planar metric reach (circle radius)
  /-- The distance of a polygon is cut off at the root of the largest number. -/
  | polygon {metric reach points} (vertices : points ≠ [])
      (bounded : reach * reach < Scalar.largest) :
      Guarded .planar metric reach (polygon points)
  | sphere {metric reach radius} (size : 0 ≤ radius) :
      Guarded .solid metric reach (sphere radius)
  | box {metric reach halfExtents} : Guarded .solid metric reach (box halfExtents)
  | cylinder {metric reach radius height} (size : 0 ≤ radius) :
      Guarded .solid metric reach (cylinder radius height)
  | extrusion {metric reach profile height}
      (base : Guarded .planar metric reach profile) :
      Guarded .solid metric reach (extrusion profile height)
  | revolution {metric reach profile} (base : Guarded .planar metric reach profile) :
      Guarded .solid metric reach (revolution profile)
  /-- A fillet adds material within its radius of the operands. -/
  | union {dimension metric reach shapes radius} (nonempty : shapes ≠ [])
      (operands : ∀ shape ∈ shapes,
        Guarded dimension metric (max reach radius) shape) :
      Guarded dimension metric reach (union shapes radius)
  /-- The corners of an intersection are closer to it along the axes only. -/
  | intersection {dimension reach shapes radius} (nonempty : shapes ≠ [])
      (operands : ∀ shape ∈ shapes, Guarded dimension .axial reach shape) :
      Guarded dimension .axial reach (intersection shapes radius)
  | subtraction {dimension metric reach} {base tool : Shape ℝ} {radius}
      (kept : Guarded dimension metric reach base) (cut : tool.Placed) :
      Guarded dimension metric reach (subtraction base tool radius)
  | offset {dimension metric reach shape distance}
      (child : Guarded dimension metric (reach + max distance 0) shape) :
      Guarded dimension metric reach (offset shape distance)
  | shell {dimension metric reach shape thickness}
      (wall : 0 ≤ thickness ∨ reach = 0)
      (child : Guarded dimension metric (reach + max (thickness * Scalar.half) 0) shape) :
      Guarded dimension metric reach (shell shape thickness)
  /-- A shape that is turned has to be guarded in every direction. -/
  | transformed {dimension metric inner reach shape transform}
      (unit : transform.rotation.IsUnit) (scaled : 0 < transform.scale)
      (level : dimension = .planar → transform.rotation.KeepsThirdAxis)
      (turned : inner = .radial ∨
        metric = .axial ∧ transform.rotation.KeepsCubes)
      (child : Guarded dimension inner (reach / transform.scale) shape) :
      Guarded dimension metric reach (transformed shape transform)
  /-- What is not reached beyond the surface is the same in both metrics. -/
  | surface {dimension metric other reach shape} (touches : reach = 0)
      (same : Guarded dimension other reach shape) :
      Guarded dimension metric reach shape

end Shape

end SolidField
