import SolidField.Shape.Lowering

/-!
# Sharp fillets

A fillet radius that is not positive makes a sharp edge, whatever the radius is.
-/

namespace SolidField

/-- Zero or less, or not a number. -/
def Single.isSharp (radius : Single) : Bool :=
  radius.atMost 0 || radius.isNaN

/-- The radius itself, or one for all that are sharp. -/
def Single.sharpened (radius : Single) : Single :=
  if radius.isSharp then 0 else radius

@[simp]
theorem Single.isSharp_sharpened (radius : Single) :
    radius.sharpened.isSharp = radius.isSharp := by
  rw [sharpened]
  split
  next sharp =>
    rw [sharp]
    rfl
  next => rfl

namespace Shape

mutual

/-- The shape with one radius for all fillets that are sharp. -/
def sharpened (shape : Shape Single) : Shape Single :=
  match shape with
  | rectangle _ | circle _ | polygon _ | sphere _ | box _ | cylinder _ _ => shape
  | extrusion profile height => extrusion profile.sharpened height
  | revolution profile => revolution profile.sharpened
  | union shapes radius => union (allSharpened shapes) radius.sharpened
  | intersection shapes radius => intersection (allSharpened shapes) radius.sharpened
  | subtraction base tool radius =>
      subtraction base.sharpened tool.sharpened radius.sharpened
  | offset child distance => offset child.sharpened distance
  | shell child thickness => shell child.sharpened thickness
  | transformed child transform => transformed child.sharpened transform

def allSharpened : List (Shape Single) → List (Shape Single)
  | [] => []
  | shape :: shapes => shape.sharpened :: allSharpened shapes

end

end Shape

end SolidField
