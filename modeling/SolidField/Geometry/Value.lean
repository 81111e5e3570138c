import Mathlib.Algebra.Order.Group.Unbundled.Abs
import SolidField.Geometry.Similarity
import SolidField.Numeric.Exact

/-!
# Values of geometric data

What vectors, rotations and similarities in single precision stand for exactly, and
how far exact vectors are apart.
-/

namespace SolidField

namespace Vec3

/-- The exact vector, if the components are finite. -/
def value (v : Vec3 Single) : Vec3 ℚ :=
  v.map Single.value

/-- Two vectors differ by at most a distance on every axis. -/
def Within (distance : ℚ) (v w : Vec3 ℚ) : Prop :=
  |v.x - w.x| ≤ distance ∧ |v.y - w.y| ≤ distance ∧ |v.z - w.z| ≤ distance

instance (distance : ℚ) (v w : Vec3 ℚ) : Decidable (Within distance v w) :=
  inferInstanceAs (Decidable (_ ∧ _ ∧ _))

end Vec3

/-- The exact quaternion, if the components are finite. -/
def Rotation.value (q : Rotation Single) : Rotation ℚ :=
  ⟨q.x.value, q.y.value, q.z.value, q.w.value⟩

/-- The exact similarity, if all of it is finite. -/
def Similarity.value (t : Similarity Single) : Similarity ℚ :=
  ⟨t.rotation.value, t.scale.value, t.translation.value⟩

end SolidField
