import SolidField.Json.Geometry
import SolidField.Shape.Basic

/-!
# Shapes in JSON

A shape is an object with a single key, the kind of the shape, whose value is a
record of the fields of that kind.  Reading a shape goes two containers deep
before it reaches the fields.
-/

namespace SolidField

namespace Shape

/-- A shape of a kind with the given fields. -/
def kindToJson (kind : String) (fields : List (String × Json)) : Json :=
  .ofFields [(kind, .ofFields fields)]

mutual

def toJson : Shape Single → Json
  | rectangle halfSize => kindToJson "Rectangle" [("half_size", halfSize.toJson)]
  | circle radius => kindToJson "Circle" [("radius", .ofSingle radius)]
  | polygon points =>
      kindToJson "Polygon" [("points", .array (points.map Vec2.toJson))]
  | sphere radius => kindToJson "Sphere" [("radius", .ofSingle radius)]
  | box halfExtents =>
      kindToJson "Box3d" [("half_extents", halfExtents.toJson)]
  | cylinder radius height =>
      kindToJson "Cylinder"
        [("radius", .ofSingle radius), ("height", .ofSingle height)]
  | extrusion profile height =>
      kindToJson "Extrusion"
        [("profile", profile.toJson), ("height", .ofSingle height)]
  | revolution profile =>
      kindToJson "Revolution" [("profile", profile.toJson)]
  | union shapes radius =>
      kindToJson "Union"
        [("shapes", .array (allToJson shapes)), ("radius", .ofSingle radius)]
  | intersection shapes radius =>
      kindToJson "Intersection"
        [("shapes", .array (allToJson shapes)), ("radius", .ofSingle radius)]
  | subtraction base tool radius =>
      kindToJson "Subtraction"
        [ ("base", base.toJson), ("tool", tool.toJson),
          ("radius", .ofSingle radius) ]
  | offset shape distance =>
      kindToJson "Offset"
        [("shape", shape.toJson), ("distance", .ofSingle distance)]
  | shell shape thickness =>
      kindToJson "Shell"
        [("shape", shape.toJson), ("thickness", .ofSingle thickness)]
  | transformed shape transform =>
      kindToJson "Transformed"
        [("shape", shape.toJson), ("transform", transform.toJson)]

def allToJson : List (Shape Single) → List Json
  | [] => []
  | shape :: shapes => shape.toJson :: allToJson shapes

end

/-- A list of values from an array, one container deeper. -/
def itemsOfJson? {β : Type} (read : Nat → Json → Option β) (depth : Nat)
    (value : Json) : Option (List β) := do
  let depth ← Json.enter? depth
  (← value.items?).mapM (read depth)

/--
A shape from its JSON form.  The depth is the limit of nesting that is left; a
shape needs two levels for itself, and its fields have what remains.
-/
def ofJson? : Nat → Json → Option (Shape Single)
  | depth + 3, .object [(some kind, value)] =>
      let inner := depth + 1
      match kind with
      | "Rectangle" => do
          let [halfSize] ← value.record? ["half_size"] | none
          pure (rectangle (← Vec2.ofJson? inner halfSize))
      | "Circle" => do
          let [radius] ← value.record? ["radius"] | none
          pure (circle (← radius.single?))
      | "Polygon" => do
          let [points] ← value.record? ["points"] | none
          pure (polygon (← itemsOfJson? Vec2.ofJson? inner points))
      | "Sphere" => do
          let [radius] ← value.record? ["radius"] | none
          pure (sphere (← radius.single?))
      | "Box3d" => do
          let [halfExtents] ← value.record? ["half_extents"] | none
          pure (box (← Vec3.ofJson? inner halfExtents))
      | "Cylinder" => do
          let [radius, height] ← value.record? ["radius", "height"] | none
          pure (cylinder (← radius.single?) (← height.single?))
      | "Extrusion" => do
          let [profile, height] ← value.record? ["profile", "height"] | none
          pure (extrusion (← ofJson? (depth + 1) profile) (← height.single?))
      | "Revolution" => do
          let [profile] ← value.record? ["profile"] | none
          pure (revolution (← ofJson? (depth + 1) profile))
      | "Union" => do
          let [shapes, radius] ← value.record? ["shapes", "radius"] | none
          let shapes ←
            match depth with
            | 0 => none
            | depth + 1 => (← shapes.items?).mapM (ofJson? (depth + 1))
          pure (union shapes (← radius.single?))
      | "Intersection" => do
          let [shapes, radius] ← value.record? ["shapes", "radius"] | none
          let shapes ←
            match depth with
            | 0 => none
            | depth + 1 => (← shapes.items?).mapM (ofJson? (depth + 1))
          pure (intersection shapes (← radius.single?))
      | "Subtraction" => do
          let [base, tool, radius] ← value.record? ["base", "tool", "radius"] | none
          pure
            (subtraction (← ofJson? (depth + 1) base) (← ofJson? (depth + 1) tool)
              (← radius.single?))
      | "Offset" => do
          let [shape, distance] ← value.record? ["shape", "distance"] | none
          pure (offset (← ofJson? (depth + 1) shape) (← distance.single?))
      | "Shell" => do
          let [shape, thickness] ← value.record? ["shape", "thickness"] | none
          pure (shell (← ofJson? (depth + 1) shape) (← thickness.single?))
      | "Transformed" => do
          let [shape, transform] ← value.record? ["shape", "transform"] | none
          pure
            (transformed (← ofJson? (depth + 1) shape)
              (← Similarity.ofJson? inner transform))
      | _ => none
  | _, _ => none

end Shape

end SolidField
