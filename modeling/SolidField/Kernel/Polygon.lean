import SolidField.Geometry.Vector

/-!
# Distance field of a polygon

The distance of a point to a closed polygon is its distance to the nearest
edge.  Its sign comes from counting the edges that a horizontal ray crosses, so
the polygon may wind either way and may cross itself.
-/

universe u

namespace SolidField

namespace Kernel

variable {α : Type u}

/-- Consecutive pairs of numbers as points; a single last number is dropped. -/
def pairs : List α → List (Vec2 α)
  | x :: y :: rest => ⟨x, y⟩ :: pairs rest
  | _ => []

/-- The coordinates of points are the points. -/
@[simp]
theorem pairs_flatMap_toList (points : List (Vec2 α)) :
    pairs (points.flatMap Vec2.toList) = points := by
  induction points with
  | nil => rfl
  | cons first points induction => simp [Vec2.toList, pairs, induction]

variable [Scalar α]

/-- Every vertex with its predecessor on the closed outline. -/
def outline (vertices : List (Vec2 α)) : List (Vec2 α × Vec2 α) :=
  match vertices.getLast? with
  | none => []
  | some last => vertices.zip (last :: vertices)

/-- The vector to a point from the nearest point of an edge. -/
def edgeOffset (point start finish : Vec2 α) : Vec2 α :=
  let edge := finish - start
  let toPoint := point - start
  let square := edge.dot edge
  let position :=
    if Scalar.less 0 square then
      Scalar.clamp 0 1 (toPoint.dot edge / square)
    else
      0
  toPoint - edge.scale position

/-- The horizontal ray from a point crosses an edge. -/
def crosses (point start finish : Vec2 α) : Bool :=
  let edge := finish - start
  let toPoint := point - start
  let startBelow := Scalar.atMost start.y point.y
  let finishAbove := Scalar.less point.y finish.y
  let leftOf := Scalar.less (edge.y * toPoint.x) (edge.x * toPoint.y)
  (startBelow && finishAbove && leftOf) ||
    (!startBelow && !finishAbove && !leftOf)

/-- What a walk along the outline knows of the edges behind it. -/
structure OutlineWalk (α : Type u) where
  square : α
  offset : Vec2 α
  /-- One, with its sign flipped at every crossing. -/
  sign : α

namespace OutlineWalk

/-- Before the first edge. -/
def start : OutlineWalk α :=
  ⟨Scalar.largest, 0, 1⟩

/-- Take one more edge into account; the earlier of two equal edges stays. -/
def step (point : Vec2 α) (walk : OutlineWalk α) (edge : Vec2 α × Vec2 α) :
    OutlineWalk α :=
  let offset := edgeOffset point edge.1 edge.2
  let square := offset.dot offset
  let nearer := Scalar.less square walk.square
  { square := if nearer then square else walk.square
    offset := if nearer then offset else walk.offset
    sign := if crosses point edge.1 edge.2 then -walk.sign else walk.sign }

end OutlineWalk

/-- A closed polygon in the plane; without vertices it is nowhere near. -/
def polygon (vertices : List (Vec2 α)) (point : Vec3 α) : Vec4 α :=
  if vertices.isEmpty then
    (0 : Vec3 α).extend Scalar.largest
  else
    let walk :=
      (outline vertices).foldl (OutlineWalk.step point.truncate) .start
    let distance := Scalar.sqrt walk.square
    let gradient :=
      if Scalar.less 0 distance then
        (walk.offset.divide distance).scale walk.sign
      else
        0
    (gradient.extend 0).extend (distance * walk.sign)

end Kernel

end SolidField
