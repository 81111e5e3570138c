import SolidField.Graph.Node

/-!
# Checked construction of shapes

The functions that build shapes from sizes and operands.  Operands of different
dimensions, profiles that are no planar shapes, degenerate polygons and unusable
scale factors are refused; chains of equal booleans become one boolean with many
operands.
-/

universe u

namespace SolidField

namespace Shape

variable {α : Type u} [Scalar α]

/-- A rectangle of the given width and height. -/
def rectangleOfSize (width height : α) : Shape α :=
  rectangle ⟨width * Scalar.half, height * Scalar.half⟩

/-- A box of the given width, height and depth. -/
def boxOfSize (width height depth : α) : Shape α :=
  box ⟨width * Scalar.half, height * Scalar.half, depth * Scalar.half⟩

/-- A polygon of at least three vertices of bounded size. -/
def polygonOfVertices (points : List (Vec2 α)) :
    Except (BuildError α) (Shape α) :=
  if points.length < 3 then
    .error (.invalidShape (.fewVertices points.length))
  else if points.all Vec2.isFinite then
    .ok (polygon points)
  else
    .error (.invalidShape .unboundedVertex)

/-- A shape of the expected dimension. -/
def requireDimension (expected : Dimension) (shape : Shape α) :
    Except (BuildError α) PUnit :=
  if shape.dimension = expected then
    .ok ⟨⟩
  else
    .error (.dimensionMismatch expected shape.dimension)

/-- Add an operand to a union of the same fillet radius, or make a new union. -/
def joinUnion (base other : Shape α) (radius : α) : Shape α :=
  match base with
  | union shapes r =>
      if Scalar.equal r radius then
        union (shapes ++ [other]) radius
      else
        union [base, other] radius
  | _ => union [base, other] radius

/-- Add an operand to an intersection of the same fillet radius, or make a new one. -/
def joinIntersection (base other : Shape α) (radius : α) : Shape α :=
  match base with
  | intersection shapes r =>
      if Scalar.equal r radius then
        intersection (shapes ++ [other]) radius
      else
        intersection [base, other] radius
  | _ => intersection [base, other] radius

/-- The union with another shape of the same dimension. -/
def smoothUnion (base other : Shape α) (radius : α) :
    Except (BuildError α) (Shape α) := do
  requireDimension base.dimension other
  pure (joinUnion base other radius)

/-- The intersection with another shape of the same dimension. -/
def smoothIntersection (base other : Shape α) (radius : α) :
    Except (BuildError α) (Shape α) := do
  requireDimension base.dimension other
  pure (joinIntersection base other radius)

/-- A shape of the same dimension removed from this one. -/
def smoothSubtract (base tool : Shape α) (radius : α) :
    Except (BuildError α) (Shape α) := do
  requireDimension base.dimension tool
  pure (subtraction base tool radius)

/-- Every shape of a list has the expected dimension. -/
def requireDimensions (expected : Dimension) :
    List (Shape α) → Except (BuildError α) PUnit
  | [] => .ok ⟨⟩
  | shape :: shapes => do
      requireDimension expected shape
      requireDimensions expected shapes

/-- Combine the shapes of a list, a single one being its own combination. -/
def combineAll (combine : List (Shape α) → Shape α) :
    List (Shape α) → Except (BuildError α) (Shape α)
  | [] => .error (.invalidShape .emptyBoolean)
  | first :: rest => do
      requireDimensions first.dimension rest
      if rest.isEmpty then
        pure first
      else
        pure (combine (first :: rest))

def unionAll (shapes : List (Shape α)) (radius : α) :
    Except (BuildError α) (Shape α) :=
  combineAll (union · radius) shapes

def intersectionAll (shapes : List (Shape α)) (radius : α) :
    Except (BuildError α) (Shape α) :=
  combineAll (intersection · radius) shapes

/-- A planar shape extruded along the third axis. -/
def extrude (profile : Shape α) (height : α) :
    Except (BuildError α) (Shape α) := do
  requireDimension .planar profile
  pure (extrusion profile height)

/-- A planar shape revolved around the second axis. -/
def revolve (profile : Shape α) : Except (BuildError α) (Shape α) := do
  requireDimension .planar profile
  pure (revolution profile)

/-- The shape moved by an offset. -/
def translate (shape : Shape α) (offset : Vec3 α) : Shape α :=
  transformed shape (.ofTranslation offset)

/-- The shape turned by a rotation, which is made a unit rotation. -/
def rotate (shape : Shape α) (rotation : Rotation α) : Shape α :=
  transformed shape (.ofRotation rotation)

/-- The shape turned around an axis by an angle in degrees. -/
def rotateAxis (shape : Shape Single) (axis : Vec3 Single) (degrees : Single) :
    Shape Single :=
  shape.rotate (.aroundAxis axis.normalize degrees.toRadians)

/-- The shape scaled by a positive factor of bounded size. -/
def scaleBy (shape : Shape α) (factor : α) : Except (BuildError α) (Shape α) :=
  if Scalar.isPositiveFinite factor then
    .ok (transformed shape (.ofScale factor))
  else
    .error (.invalidShape (.scaleFactor factor))

end Shape

end SolidField
