import SolidField.Shape.Lowering
import SolidField.Shape.Parts

/-!
# Shapes that are refused

What lowering refuses in a shape: a similarity that is not valid, and a boolean
without operands.
-/

universe u

namespace SolidField

namespace Shape

variable {α : Type u} [Scalar α]

/-- Why the outermost operation of a shape is refused, if it is. -/
def refusal? : Shape α → Option (BuildError α)
  | union [] _ => some (.arityMismatch .union 0)
  | intersection [] _ => some (.arityMismatch .intersection 0)
  | transformed _ transform =>
      if transform.isValid then none else some (.invalidShape (.transform transform))
  | _ => none

/-- Why a shape is refused: on account of the first of its parts that is. -/
def firstRefusal? (shape : Shape α) : Option (BuildError α) :=
  shape.parts.findSome? refusal?

end Shape

end SolidField
