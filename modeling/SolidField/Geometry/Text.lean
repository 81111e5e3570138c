import SolidField.Geometry.Similarity
import SolidField.Numeric.Decimal

/-!
# Text of geometric values

How numbers, vectors, boxes and similarities are spelt inside messages and
listings.
-/

namespace SolidField

/-- Items between brackets, separated by commas. -/
def bracketed (items : List String) : String :=
  "[" ++ String.intercalate ", " items ++ "]"

def applied (name : String) (arguments : List String) : String :=
  name ++ "(" ++ String.intercalate ", " arguments ++ ")"

/-- A name with labelled fields. -/
def labelled (name : String) (fields : List (String × String)) : String :=
  name ++ " \x7b " ++
    String.intercalate ", " (fields.map fun field => field.1 ++ ": " ++ field.2) ++
    " \x7d"

/-- The text of a number that stands alone in a message. -/
def Single.plainText (x : Single) : String :=
  Single.Layout.plain.text x

/-- The text of a number inside a structured value. -/
def Single.detailedText (x : Single) : String :=
  Single.Layout.detailed.text x

def Vec3.text (v : Vec3 Single) : String :=
  applied "Vec3" (v.toList.map Single.detailedText)

def Rotation.text (q : Rotation Single) : String :=
  applied "Quat" (q.toList.map Single.detailedText)

def Aabb.text (aabb : Aabb Single) : String :=
  labelled "Aabb" [("min", aabb.min.text), ("max", aabb.max.text)]

def Similarity.text (t : Similarity Single) : String :=
  labelled "Transform"
    [ ("rotation", t.rotation.text),
      ("scale", t.scale.detailedText),
      ("translation", t.translation.text) ]

end SolidField
