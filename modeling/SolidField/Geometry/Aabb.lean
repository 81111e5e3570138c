import SolidField.Geometry.Vector

/-!
# Axis-aligned boxes

A box is given by two opposite corners.  Nothing forces the lower corner below
the upper one: an overlap of disjoint boxes is inverted, and `isValid` tells a
proper box from an inverted one.
-/

universe u

namespace SolidField

/-- An axis-aligned box between two corners. -/
@[ext]
structure Aabb (α : Type u) where
  min : Vec3 α
  max : Vec3 α
deriving DecidableEq

namespace Aabb

variable {α : Type u} [Scalar α]

def ofPoint (point : Vec3 α) : Aabb α :=
  ⟨point, point⟩

/-- The box around a centre that reaches the given distance on every axis. -/
def ofCenter (center halfExtents : Vec3 α) : Aabb α :=
  ⟨center - halfExtents, center + halfExtents⟩

/-- The box that also contains a point. -/
def enlarge (aabb : Aabb α) (point : Vec3 α) : Aabb α :=
  ⟨aabb.min.min point, aabb.max.max point⟩

/-- The smallest box that contains every point of a list, unless it is empty. -/
def ofPoints? : List (Vec3 α) → Option (Aabb α)
  | [] => none
  | first :: rest => some (rest.foldl enlarge (ofPoint first))

def center (aabb : Aabb α) : Vec3 α :=
  (aabb.min + aabb.max).scale Scalar.half

def size (aabb : Aabb α) : Vec3 α :=
  aabb.max - aabb.min

/-- The enclosed volume; a flat or inverted box has none. -/
def volume (aabb : Aabb α) : α :=
  let edges := aabb.size.positivePart
  edges.x * edges.y * edges.z

/-- The point lies in the box, the faces included. -/
def contains (aabb : Aabb α) (point : Vec3 α) : Bool :=
  aabb.min.atMost point && point.atMost aabb.max

/-- The corners are of bounded size and in order on every axis. -/
def isValid (aabb : Aabb α) : Bool :=
  aabb.min.isFinite && aabb.max.isFinite && aabb.min.atMost aabb.max

/-- The smallest box around two boxes. -/
def union (a b : Aabb α) : Aabb α :=
  ⟨a.min.min b.min, a.max.max b.max⟩

/-- The overlap of two boxes, inverted if they do not touch. -/
def intersection (a b : Aabb α) : Aabb α :=
  ⟨a.min.max b.min, a.max.min b.max⟩

def expanded (aabb : Aabb α) (amount : α) : Aabb α :=
  ⟨aabb.min - Vec3.splat amount, aabb.max + Vec3.splat amount⟩

/-- The eight corners, the first axis alternating fastest. -/
def vertices (aabb : Aabb α) : List (Vec3 α) :=
  let a := aabb.min
  let b := aabb.max
  [ ⟨a.x, a.y, a.z⟩, ⟨b.x, a.y, a.z⟩, ⟨a.x, b.y, a.z⟩, ⟨b.x, b.y, a.z⟩,
    ⟨a.x, a.y, b.z⟩, ⟨b.x, a.y, b.z⟩, ⟨a.x, b.y, b.z⟩, ⟨b.x, b.y, b.z⟩ ]

end Aabb

end SolidField
