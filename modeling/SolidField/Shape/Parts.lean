import SolidField.Shape.Basic

/-!
# Parts of shapes

The shapes that a shape consists of, in the order in which lowering meets them.
-/

universe u

namespace SolidField

namespace Shape

variable {α : Type u}

mutual

/--
The shapes inside a shape, and the shape itself: in front of the shape that it places
if it is transformed, and otherwise behind its operands, which come from the left.
-/
def parts (shape : Shape α) : List (Shape α) :=
  match shape with
  | rectangle _ | circle _ | polygon _ | sphere _ | box _ | cylinder _ _ => [shape]
  | extrusion profile _ => profile.parts ++ [shape]
  | revolution profile => profile.parts ++ [shape]
  | union shapes _ => allParts shapes ++ [shape]
  | intersection shapes _ => allParts shapes ++ [shape]
  | subtraction base tool _ => base.parts ++ tool.parts ++ [shape]
  | offset child _ => child.parts ++ [shape]
  | shell child _ => child.parts ++ [shape]
  | transformed child _ => shape :: child.parts

/-- The parts of the shapes of a list, one shape after the other. -/
def allParts : List (Shape α) → List (Shape α)
  | [] => []
  | shape :: shapes => shape.parts ++ allParts shapes

end

end Shape

end SolidField
