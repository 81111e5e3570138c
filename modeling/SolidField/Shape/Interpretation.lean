import SolidField.Graph.Interpretation
import SolidField.Shape.Lowering

/-!
# Interpreted shapes

The value of a shape under an interpretation of the kernels.  Nothing is merged:
every similarity moves the point and the value on its own.
-/

universe u

namespace SolidField

variable {α : Type u} [Scalar α]

namespace Shape

/-- The value of a boolean of several values; a single one is its own. -/
def combinedUnder? (interpretation : Interpretation α) (opcode : Opcode)
    (radius : α) : List (Vec4 α) → Option (Vec4 α)
  | [single] => some single
  | values => interpretation.operate? opcode [filletParameter radius] values

mutual

/-- The value of a shape at a point under an interpretation, nothing being merged. -/
def fieldUnder? (interpretation : Interpretation α) (point : Vec3 α) :
    Shape α → Option (Vec4 α)
  | rectangle halfSize =>
      interpretation.operate? .rectangle halfSize.toList [Kernel.pointValue point]
  | circle radius =>
      interpretation.operate? .circle [radius] [Kernel.pointValue point]
  | polygon points =>
      interpretation.operate? .polygon (points.flatMap Vec2.toList)
        [Kernel.pointValue point]
  | sphere radius =>
      interpretation.operate? .sphere [radius] [Kernel.pointValue point]
  | box halfExtents =>
      interpretation.operate? .box halfExtents.toList [Kernel.pointValue point]
  | cylinder radius height =>
      interpretation.operate? .cylinder [radius, height] [Kernel.pointValue point]
  | extrusion profile height => do
      let value ← profile.fieldUnder? interpretation point
      interpretation.operate? .extrusion [height] [value, Kernel.pointValue point]
  | revolution profile => do
      let value ← profile.fieldUnder? interpretation (interpretation.fold point)
      interpretation.operate? .revolutionFrom [] [value, Kernel.pointValue point]
  | union shapes radius => do
      combinedUnder? interpretation .union radius
        (← allFieldsUnder? interpretation point shapes)
  | intersection shapes radius => do
      combinedUnder? interpretation .intersection radius
        (← allFieldsUnder? interpretation point shapes)
  | subtraction base tool radius => do
      let value ← base.fieldUnder? interpretation point
      let other ← tool.fieldUnder? interpretation point
      interpretation.operate? .subtraction [filletParameter radius] [value, other]
  | offset shape distance => do
      let value ← shape.fieldUnder? interpretation point
      interpretation.operate? .offset [distance] [value]
  | shell shape thickness => do
      let value ← shape.fieldUnder? interpretation point
      interpretation.operate? .shell [thickness * Scalar.half] [value]
  | transformed shape transform => do
      let value ← shape.fieldUnder? interpretation (transform.inverse.apply point)
      pure (Kernel.transformFrom transform.rotation transform.scale value)

/-- The values of the shapes of a list under an interpretation. -/
def allFieldsUnder? (interpretation : Interpretation α) (point : Vec3 α) :
    List (Shape α) → Option (List (Vec4 α))
  | [] => some []
  | shape :: shapes => do
      let value ← shape.fieldUnder? interpretation point
      let values ← allFieldsUnder? interpretation point shapes
      pure (value :: values)

end

end Shape

end SolidField
