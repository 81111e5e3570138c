import SolidField.Shape.Build
import SolidField.Shape.Parts

/-!
# Homogeneous shapes

The dimension of a boolean is read off its first operand.  A shape is homogeneous if
this is the dimension of all operands, in every part of it, and if what is extruded or
revolved is planar.

A `Combination` is a call of a constructor that combines shapes: of a boolean, an
extrusion or a revolution.  Which of these calls are refused, and why, is the same
rule for all of them.
-/

universe u

namespace SolidField

namespace Shape

variable {α : Type u} [Scalar α]

/-- What the outermost operation of a shape asks of its operands or its vertices. -/
def Coherent (shape : Shape α) : Prop :=
  match shape with
  | rectangle _ | circle _ | sphere _ | box _ | cylinder _ _ => True
  | polygon points => 3 ≤ points.length ∧ ∀ point ∈ points, point.isFinite = true
  | extrusion profile _ => profile.dimension = .planar
  | revolution profile => profile.dimension = .planar
  | union shapes _ =>
      2 ≤ shapes.length ∧ ∀ operand ∈ shapes, operand.dimension = shape.dimension
  | intersection shapes _ =>
      2 ≤ shapes.length ∧ ∀ operand ∈ shapes, operand.dimension = shape.dimension
  | subtraction base tool _ =>
      base.dimension = shape.dimension ∧ tool.dimension = shape.dimension
  | offset child _ => child.dimension = shape.dimension
  | shell child _ => child.dimension = shape.dimension
  | transformed child _ => child.dimension = shape.dimension

/-- Every part of a shape is coherent. -/
def Homogeneous (shape : Shape α) : Prop :=
  ∀ part ∈ shape.parts, part.Coherent

end Shape

/-- A call that combines shapes into one. -/
inductive Combination (α : Type u) where
  | union (base other : Shape α) (radius : α)
  | intersection (base other : Shape α) (radius : α)
  | subtraction (base tool : Shape α) (radius : α)
  | unionAll (shapes : List (Shape α)) (radius : α)
  | intersectionAll (shapes : List (Shape α)) (radius : α)
  | extrusion (profile : Shape α) (height : α)
  | revolution (profile : Shape α)

namespace Combination

variable {α : Type u}

def operands : Combination α → List (Shape α)
  | union base other _ | intersection base other _ => [base, other]
  | subtraction base tool _ => [base, tool]
  | unionAll shapes _ | intersectionAll shapes _ => shapes
  | extrusion profile _ => [profile]
  | revolution profile => [profile]

/-- The dimension that every operand has to have: that of the first one, or planar. -/
def required : Combination α → Dimension
  | extrusion _ _ | revolution _ => .planar
  | combination => Shape.firstDimension combination.operands

/-- The first operand of another dimension than the required one. -/
def offending? (combination : Combination α) : Option (Shape α) :=
  combination.operands.find? fun operand => operand.dimension ≠ combination.required

/-- The boolean of a list of shapes; a single one is its own, and of none there is none. -/
def gathered? (make : List (Shape α) → Shape α) : List (Shape α) → Option (Shape α)
  | [] => none
  | [single] => some single
  | shapes => some (make shapes)

variable [Scalar α]

/-- What the operands are combined to, whatever their dimensions are. -/
def form? : Combination α → Option (Shape α)
  | union base other radius => some (base.joinUnion other radius)
  | intersection base other radius => some (base.joinIntersection other radius)
  | subtraction base tool radius => some (.subtraction base tool radius)
  | unionAll shapes radius => gathered? (.union · radius) shapes
  | intersectionAll shapes radius => gathered? (.intersection · radius) shapes
  | extrusion profile height => some (.extrusion profile height)
  | revolution profile => some (.revolution profile)

/-- What the call returns. -/
def run : Combination α → Except (BuildError α) (Shape α)
  | union base other radius => base.smoothUnion other radius
  | intersection base other radius => base.smoothIntersection other radius
  | subtraction base tool radius => base.smoothSubtract tool radius
  | unionAll shapes radius => Shape.unionAll shapes radius
  | intersectionAll shapes radius => Shape.intersectionAll shapes radius
  | extrusion profile height => profile.extrude height
  | revolution profile => profile.revolve

end Combination

namespace Shape

/-- Shapes that come from successful calls of constructors alone. -/
inductive Constructed : Shape Single → Prop
  | rectangle (width height : Single) : Constructed (rectangleOfSize width height)
  | circle (radius : Single) : Constructed (circle radius)
  | polygon {points : List (Vec2 Single)} {shape : Shape Single}
      (succeeds : polygonOfVertices points = .ok shape) : Constructed shape
  | sphere (radius : Single) : Constructed (sphere radius)
  | box (width height depth : Single) : Constructed (boxOfSize width height depth)
  | cylinder (radius height : Single) : Constructed (cylinder radius height)
  | offset {shape : Shape Single} (built : Constructed shape) (distance : Single) :
      Constructed (offset shape distance)
  | shell {shape : Shape Single} (built : Constructed shape) (thickness : Single) :
      Constructed (shell shape thickness)
  /-- Any similarity is taken as it is. -/
  | transform {shape : Shape Single} (built : Constructed shape)
      (similarity : Similarity Single) : Constructed (transformed shape similarity)
  | translate {shape : Shape Single} (built : Constructed shape)
      (offset : Vec3 Single) : Constructed (shape.translate offset)
  | rotate {shape : Shape Single} (built : Constructed shape)
      (rotation : Rotation Single) : Constructed (shape.rotate rotation)
  | rotateAxis {shape : Shape Single} (built : Constructed shape)
      (axis : Vec3 Single) (degrees : Single) :
      Constructed (shape.rotateAxis axis degrees)
  | scale {shape scaled : Shape Single} (built : Constructed shape) {factor : Single}
      (succeeds : shape.scaleBy factor = .ok scaled) : Constructed scaled
  | combine {combination : Combination Single} {shape : Shape Single}
      (built : ∀ operand ∈ combination.operands, Constructed operand)
      (succeeds : combination.run = .ok shape) : Constructed shape

end Shape

end SolidField
