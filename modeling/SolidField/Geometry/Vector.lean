import SolidField.Numeric.Scalar

/-!
# Vectors

Vectors of two, three and four components over a scalar.  Every operation is
componentwise unless it says otherwise, and sums of products associate to the
left, so that a rounded result does not depend on who computes it.
-/

universe u

namespace SolidField

/-- A point or direction in the plane. -/
@[ext]
structure Vec2 (α : Type u) where
  x : α
  y : α
deriving DecidableEq

/-- A point or direction in space. -/
@[ext]
structure Vec3 (α : Type u) where
  x : α
  y : α
  z : α
deriving DecidableEq

/-- The content of a register: a direction with a distance, or a point. -/
@[ext]
structure Vec4 (α : Type u) where
  x : α
  y : α
  z : α
  /-- The fourth component, the distance of a shape value. -/
  w : α
deriving DecidableEq

variable {α : Type u} {β : Type u}

namespace Vec2

@[inline] def map (f : α → β) (v : Vec2 α) : Vec2 β :=
  ⟨f v.x, f v.y⟩

/-- Combine two vectors component by component. -/
@[inline] def zipWith (f : α → α → β) (v w : Vec2 α) : Vec2 β :=
  ⟨f v.x w.x, f v.y w.y⟩

def toList (v : Vec2 α) : List α :=
  [v.x, v.y]

instance [Zero α] : Zero (Vec2 α) := ⟨⟨0, 0⟩⟩
instance [Sub α] : Sub (Vec2 α) := ⟨zipWith (· - ·)⟩

/-- A planar vector in space, at the given height. -/
def extend (v : Vec2 α) (z : α) : Vec3 α :=
  ⟨v.x, v.y, z⟩

variable [Scalar α]

def scale (v : Vec2 α) (factor : α) : Vec2 α :=
  v.map (· * factor)

def divide (v : Vec2 α) (divisor : α) : Vec2 α :=
  v.map (· / divisor)

def times (v w : Vec2 α) : Vec2 α :=
  zipWith (· * ·) v w

def dot (v w : Vec2 α) : α :=
  v.x * w.x + v.y * w.y

def length (v : Vec2 α) : α :=
  Scalar.sqrt (v.dot v)

def abs (v : Vec2 α) : Vec2 α :=
  v.map Scalar.abs

def signum (v : Vec2 α) : Vec2 α :=
  v.map Scalar.signum

/-- The negative components become zero. -/
def positivePart (v : Vec2 α) : Vec2 α :=
  v.map (Scalar.max · 0)

/-- The unit vector of the same direction, or zero if there is none. -/
def normalizeOrZero (v : Vec2 α) : Vec2 α :=
  let reciprocal := 1 / v.length
  if Scalar.isPositiveFinite reciprocal then v.scale reciprocal else 0

def isFinite (v : Vec2 α) : Bool :=
  Scalar.isFinite v.x && Scalar.isFinite v.y

def equal (v w : Vec2 α) : Bool :=
  Scalar.equal v.x w.x && Scalar.equal v.y w.y

end Vec2

namespace Vec3

@[inline] def map (f : α → β) (v : Vec3 α) : Vec3 β :=
  ⟨f v.x, f v.y, f v.z⟩

/-- Combine two vectors component by component. -/
@[inline] def zipWith (f : α → α → β) (v w : Vec3 α) : Vec3 β :=
  ⟨f v.x w.x, f v.y w.y, f v.z w.z⟩

def toList (v : Vec3 α) : List α :=
  [v.x, v.y, v.z]

def splat (a : α) : Vec3 α :=
  ⟨a, a, a⟩

instance [Zero α] : Zero (Vec3 α) := ⟨splat 0⟩
instance [Add α] : Add (Vec3 α) := ⟨zipWith (· + ·)⟩
instance [Sub α] : Sub (Vec3 α) := ⟨zipWith (· - ·)⟩
instance [Neg α] : Neg (Vec3 α) := ⟨map (-·)⟩

def truncate (v : Vec3 α) : Vec2 α :=
  ⟨v.x, v.y⟩

/-- A register with the given direction and fourth component. -/
def extend (v : Vec3 α) (w : α) : Vec4 α :=
  ⟨v.x, v.y, v.z, w⟩

variable [Scalar α]

def scale (v : Vec3 α) (factor : α) : Vec3 α :=
  v.map (· * factor)

def divide (v : Vec3 α) (divisor : α) : Vec3 α :=
  v.map (· / divisor)

def times (v w : Vec3 α) : Vec3 α :=
  zipWith (· * ·) v w

def dot (v w : Vec3 α) : α :=
  v.x * w.x + v.y * w.y + v.z * w.z

def cross (v w : Vec3 α) : Vec3 α :=
  ⟨v.y * w.z - v.z * w.y, v.z * w.x - v.x * w.z, v.x * w.y - v.y * w.x⟩

def length (v : Vec3 α) : α :=
  Scalar.sqrt (v.dot v)

def abs (v : Vec3 α) : Vec3 α :=
  v.map Scalar.abs

def signum (v : Vec3 α) : Vec3 α :=
  v.map Scalar.signum

def min (v w : Vec3 α) : Vec3 α :=
  zipWith Scalar.min v w

def max (v w : Vec3 α) : Vec3 α :=
  zipWith Scalar.max v w

/-- The negative components become zero. -/
def positivePart (v : Vec3 α) : Vec3 α :=
  v.map (Scalar.max · 0)

/-- The vector times the reciprocal of its length. -/
def normalize (v : Vec3 α) : Vec3 α :=
  v.scale (1 / v.length)

/-- The unit vector of the same direction, or zero if there is none. -/
def normalizeOrZero (v : Vec3 α) : Vec3 α :=
  let reciprocal := 1 / v.length
  if Scalar.isPositiveFinite reciprocal then v.scale reciprocal else 0

def isFinite (v : Vec3 α) : Bool :=
  Scalar.isFinite v.x && Scalar.isFinite v.y && Scalar.isFinite v.z

/-- Every component is at most its counterpart. -/
def atMost (v w : Vec3 α) : Bool :=
  Scalar.atMost v.x w.x && Scalar.atMost v.y w.y && Scalar.atMost v.z w.z

def equal (v w : Vec3 α) : Bool :=
  Scalar.equal v.x w.x && Scalar.equal v.y w.y && Scalar.equal v.z w.z

end Vec3

namespace Vec4

def splat (a : α) : Vec4 α :=
  ⟨a, a, a, a⟩

instance [Zero α] : Zero (Vec4 α) := ⟨splat 0⟩
instance [Neg α] : Neg (Vec4 α) := ⟨fun v => ⟨-v.x, -v.y, -v.z, -v.w⟩⟩

def truncate (v : Vec4 α) : Vec3 α :=
  ⟨v.x, v.y, v.z⟩

def toList (v : Vec4 α) : List α :=
  [v.x, v.y, v.z, v.w]

@[simp]
theorem truncate_extend (v : Vec3 α) (w : α) :
    (v.extend w).truncate = v := rfl

@[simp]
theorem w_extend (v : Vec3 α) (w : α) : (v.extend w).w = w := rfl

end Vec4

end SolidField
