import SolidField.Geometry.Similarity
import SolidField.Json.Reader

/-!
# Geometric values in JSON

Vectors and rotations are arrays of their components; boxes and similarities are
records.
-/

namespace SolidField

namespace Vec2

def toJson (v : Vec2 Single) : Json :=
  .array (v.toList.map .ofSingle)

def ofJson? (depth : Nat) (value : Json) : Option (Vec2 Single) := do
  let _ ← Json.enter? depth
  let [x, y] ← value.items? | none
  pure ⟨← x.single?, ← y.single?⟩

end Vec2

namespace Vec3

def toJson (v : Vec3 Single) : Json :=
  .array (v.toList.map .ofSingle)

def ofJson? (depth : Nat) (value : Json) : Option (Vec3 Single) := do
  let _ ← Json.enter? depth
  let [x, y, z] ← value.items? | none
  pure ⟨← x.single?, ← y.single?, ← z.single?⟩

/-- The JSON form of a vector of words. -/
def wordsToJson (v : Vec3 UInt32) : Json :=
  .array (v.toList.map fun word => .ofNat word.toNat)

/-- A vector of words from its JSON form. -/
def wordsOfJson? (depth : Nat) (value : Json) : Option (Vec3 UInt32) := do
  let _ ← Json.enter? depth
  let [x, y, z] ← value.items? | none
  pure ⟨← x.word?, ← y.word?, ← z.word?⟩

end Vec3

namespace Rotation

def toJson (q : Rotation Single) : Json :=
  .array (q.toList.map .ofSingle)

def ofJson? (depth : Nat) (value : Json) : Option (Rotation Single) := do
  let _ ← Json.enter? depth
  let [x, y, z, w] ← value.items? | none
  pure ⟨← x.single?, ← y.single?, ← z.single?, ← w.single?⟩

end Rotation

namespace Aabb

def toJson (aabb : Aabb Single) : Json :=
  .ofFields [("min", aabb.min.toJson), ("max", aabb.max.toJson)]

def ofJson? (depth : Nat) (value : Json) : Option (Aabb Single) := do
  let depth ← Json.enter? depth
  let [min, max] ← value.record? ["min", "max"] | none
  pure ⟨← Vec3.ofJson? depth min, ← Vec3.ofJson? depth max⟩

end Aabb

namespace Similarity

def toJson (t : Similarity Single) : Json :=
  .ofFields
    [ ("rotation", t.rotation.toJson),
      ("scale", .ofSingle t.scale),
      ("translation", t.translation.toJson) ]

def ofJson? (depth : Nat) (value : Json) : Option (Similarity Single) := do
  let depth ← Json.enter? depth
  let [rotation, scale, translation] ←
    value.record? ["rotation", "scale", "translation"] | none
  pure
    ⟨← Rotation.ofJson? depth rotation, ← scale.single?,
      ← Vec3.ofJson? depth translation⟩

end Similarity

end SolidField
