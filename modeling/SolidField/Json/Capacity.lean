import SolidField.Json.Shape

/-!
# What JSON text carries

A text carries finite numbers only, and a reader of texts accepts a limited nesting
of containers.
-/

universe u

namespace SolidField

namespace Json

mutual

/-- The greatest number of containers inside each other. -/
def nesting : Json → Nat
  | array items => 1 + nestingOfItems items
  | object members => 1 + nestingOfMembers members
  | _ => 0

def nestingOfItems : List Json → Nat
  | [] => 0
  | item :: items => max item.nesting (nestingOfItems items)

def nestingOfMembers : List (JsonText × Json) → Nat
  | [] => 0
  | (_, value) :: members => max value.nesting (nestingOfMembers members)

end

end Json

namespace Shape

variable {α : Type u} [Scalar α]

mutual

/-- Every number of the tree is finite. -/
def isFinite : Shape α → Bool
  | rectangle halfSize => halfSize.isFinite
  | circle radius | sphere radius => Scalar.isFinite radius
  | polygon points => points.all Vec2.isFinite
  | box halfExtents => halfExtents.isFinite
  | cylinder radius height => Scalar.isFinite radius && Scalar.isFinite height
  | extrusion profile height => profile.isFinite && Scalar.isFinite height
  | revolution profile => profile.isFinite
  | union shapes radius | intersection shapes radius =>
      allFinite shapes && Scalar.isFinite radius
  | subtraction base tool radius =>
      base.isFinite && tool.isFinite && Scalar.isFinite radius
  | offset shape distance => shape.isFinite && Scalar.isFinite distance
  | shell shape thickness => shape.isFinite && Scalar.isFinite thickness
  | transformed shape transform =>
      shape.isFinite && transform.rotation.isFinite &&
        Scalar.isFinite transform.scale && transform.translation.isFinite

/-- Every number of the trees is finite. -/
def allFinite : List (Shape α) → Bool
  | [] => true
  | shape :: shapes => shape.isFinite && allFinite shapes

end

end Shape

end SolidField
