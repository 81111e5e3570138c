import SolidField.Geometry.Aabb
import SolidField.Proofs.Numeric.NotANumber

/-!
# Boxes of points

The box of a list of points contains all of them, and its corners lie in every box that
does.  Such a box is unique up to the signs of its zeros, so that the order of the points
does not matter, and the union of two boxes is the box of both lists.  Coordinates may be
infinite, as long as they are numbers.
-/

universe u

namespace SolidField

/-! ## The smaller and the larger of two numbers -/

theorem Scalar.min_cases {α : Type u} [Scalar α] (a b : α) :
    Scalar.min a b = a ∨ Scalar.min a b = b := by
  rw [Scalar.min]
  split
  · split
    · exact Or.inl rfl
    · exact Or.inr rfl
  · exact Or.inl rfl

theorem Scalar.max_cases {α : Type u} [Scalar α] (a b : α) :
    Scalar.max a b = a ∨ Scalar.max a b = b := by
  rw [Scalar.max]
  split
  · split
    · exact Or.inl rfl
    · exact Or.inr rfl
  · exact Or.inl rfl

namespace Single

variable {x y z : Single}

theorem atMost_iff :
    x.atMost y = true ↔ x.isNaN = false ∧ y.isNaN = false ∧ x.rank ≤ y.rank := by
  simp [atMost, and_assoc]

theorem atMost_refl (number : x.isNaN = false) : x.atMost x = true :=
  atMost_iff.mpr ⟨number, number, Int.le_refl _⟩

theorem atMost_trans (first : x.atMost y = true) (second : y.atMost z = true) :
    x.atMost z = true := by
  rw [atMost_iff] at first second ⊢
  exact ⟨first.1, second.2.1, Int.le_trans first.2.2 second.2.2⟩

theorem equal_of_atMost (first : x.atMost y = true) (second : y.atMost x = true) :
    x.equal y = true := by
  rw [atMost_iff] at first second
  simp [equal, first.1, first.2.1, Int.le_antisymm first.2.2 second.2.2]

theorem atMost_of_less (less : x.less y = true) : x.atMost y = true := by
  simp only [Single.less, Bool.and_eq_true, Bool.not_eq_true', decide_eq_true_eq] at less
  exact atMost_iff.mpr ⟨less.1.1, less.1.2, Int.le_of_lt less.2⟩

/-- A number equals itself, so that it is compared and does not give way. -/
theorem scalarEqual_self (number : x.isNaN = false) : Scalar.equal x x = true := by
  simp [Scalar.equal, equal, number]

theorem min_atMost (number : x.isNaN = false) (other : y.isNaN = false) :
    (Scalar.min x y).atMost x = true ∧ (Scalar.min x y).atMost y = true := by
  rw [Scalar.min, if_pos (scalarEqual_self other)]
  split
  · next smaller => exact ⟨atMost_refl number, atMost_of_less smaller⟩
  · next larger =>
      have below := (atMost_eq_true_iff other).mpr ⟨Bool.not_eq_true _ ▸ larger, number⟩
      exact ⟨below, atMost_refl other⟩

theorem atMost_max (number : x.isNaN = false) (other : y.isNaN = false) :
    x.atMost (Scalar.max x y) = true ∧ y.atMost (Scalar.max x y) = true := by
  rw [Scalar.max, if_pos (scalarEqual_self other)]
  split
  · next larger => exact ⟨atMost_refl number, atMost_of_less larger⟩
  · next smaller =>
      have above := (atMost_eq_true_iff number).mpr ⟨Bool.not_eq_true _ ▸ smaller, other⟩
      exact ⟨above, atMost_refl other⟩

end Single

/-! ## Components -/

/-- An axis of space. -/
inductive Axis where
  | x
  | y
  | z
deriving DecidableEq, Repr

theorem Axis.forall_iff {p : Axis → Prop} : (∀ axis, p axis) ↔ p .x ∧ p .y ∧ p .z := by
  constructor
  · intro all
    exact ⟨all .x, all .y, all .z⟩
  · rintro ⟨x, y, z⟩ (_ | _ | _)
    · exact x
    · exact y
    · exact z

namespace Vec3

variable {v w : Vec3 Single}

/-- The component along an axis. -/
def along {α : Type u} (v : Vec3 α) : Axis → α
  | .x => v.x
  | .y => v.y
  | .z => v.z

@[simp]
theorem along_min (v w : Vec3 Single) (axis : Axis) :
    (v.min w).along axis = Scalar.min (v.along axis) (w.along axis) := by
  cases axis <;> rfl

@[simp]
theorem along_max (v w : Vec3 Single) (axis : Axis) :
    (v.max w).along axis = Scalar.max (v.along axis) (w.along axis) := by
  cases axis <;> rfl

theorem atMost_iff_along :
    v.atMost w = true ↔ ∀ axis, (v.along axis).atMost (w.along axis) = true := by
  rw [Axis.forall_iff, atMost, Bool.and_eq_true, Bool.and_eq_true, and_assoc]
  rfl

theorem equal_iff_along :
    v.equal w = true ↔ ∀ axis, (v.along axis).equal (w.along axis) = true := by
  rw [Axis.forall_iff, equal, Bool.and_eq_true, Bool.and_eq_true, and_assoc]
  rfl

/-- Every component is a number. -/
def isNumber (v : Vec3 Single) : Bool :=
  !v.x.isNaN && !v.y.isNaN && !v.z.isNaN

theorem isNumber_iff_along :
    v.isNumber = true ↔ ∀ axis, (v.along axis).isNaN = false := by
  rw [Axis.forall_iff, isNumber]
  simp only [Bool.and_eq_true, Bool.not_eq_true', and_assoc]
  rfl

end Vec3

/-! ## Boxes that fit -/

namespace Aabb

variable {aabb other : Aabb Single} {points others : List (Vec3 Single)}
  {point : Vec3 Single}

/-- Both corners are numerically the same. -/
def equal (aabb other : Aabb Single) : Bool :=
  aabb.min.equal other.min && aabb.max.equal other.max

/-- A box contains the points of a list, and its corners lie in every box that does. -/
structure Fits (aabb : Aabb Single) (points : List (Vec3 Single)) : Prop where
  contains : ∀ point ∈ points, aabb.contains point = true
  least : ∀ other : Aabb Single, (∀ point ∈ points, other.contains point = true) →
    other.contains aabb.min = true ∧ other.contains aabb.max = true

theorem contains_iff_along :
    aabb.contains point = true ↔
      ∀ axis, (aabb.min.along axis).atMost (point.along axis) = true ∧
        (point.along axis).atMost (aabb.max.along axis) = true := by
  rw [contains, Bool.and_eq_true, Vec3.atMost_iff_along, Vec3.atMost_iff_along,
    forall_and]

/-- A box contains every point with components of points that it contains. -/
theorem contains_of_along {first second : Vec3 Single}
    (containsFirst : aabb.contains first = true)
    (containsSecond : aabb.contains second = true)
    (along : ∀ axis, point.along axis = first.along axis ∨
      point.along axis = second.along axis) :
    aabb.contains point = true := by
  rw [contains_iff_along] at containsFirst containsSecond ⊢
  intro axis
  rcases along axis with same | same
  · rw [same]
    exact containsFirst axis
  · rw [same]
    exact containsSecond axis

/-- The union of boxes whose corners are numbers contains what either of them does. -/
theorem contains_union (numbers : aabb.min.isNumber = true ∧ aabb.max.isNumber = true)
    (otherNumbers : other.min.isNumber = true ∧ other.max.isNumber = true)
    (inside : aabb.contains point = true ∨ other.contains point = true) :
    (aabb.union other).contains point = true := by
  simp only [Vec3.isNumber_iff_along] at numbers otherNumbers
  simp only [contains_iff_along] at inside ⊢
  intro axis
  have lower := Single.min_atMost (numbers.1 axis) (otherNumbers.1 axis)
  have upper := Single.atMost_max (numbers.2 axis) (otherNumbers.2 axis)
  rw [union, Vec3.along_min, Vec3.along_max]
  rcases inside with first | second
  · exact ⟨Single.atMost_trans lower.1 (first axis).1,
      Single.atMost_trans (first axis).2 upper.1⟩
  · exact ⟨Single.atMost_trans lower.2 (second axis).1,
      Single.atMost_trans (second axis).2 upper.2⟩

namespace Fits

/-- The corners of a box that fits are numbers. -/
theorem isNumber (fits : aabb.Fits points) :
    aabb.min.isNumber = true ∧ aabb.max.isNumber = true := by
  rcases fits.least aabb fits.contains with ⟨lower, upper⟩
  rw [Vec3.isNumber_iff_along, Vec3.isNumber_iff_along]
  rw [contains_iff_along] at lower upper
  exact ⟨fun axis => (Single.atMost_iff.mp (lower axis).1).1,
    fun axis => (Single.atMost_iff.mp (upper axis).2).1⟩

/-- A box fits the same points in any order, and however often they occur. -/
theorem congr (fits : aabb.Fits points) (same : ∀ point, point ∈ others ↔ point ∈ points) :
    aabb.Fits others where
  contains point member := fits.contains point ((same point).mp member)
  least other contains :=
    fits.least other fun point member => contains point ((same point).mpr member)

/-- Two boxes that fit the same points are numerically the same. -/
theorem equal (fits : aabb.Fits points) (another : other.Fits points) :
    aabb.equal other = true := by
  rcases fits.least other another.contains with ⟨lower, upper⟩
  rcases another.least aabb fits.contains with ⟨otherLower, otherUpper⟩
  rw [contains_iff_along] at lower upper otherLower otherUpper
  rw [Aabb.equal, Bool.and_eq_true, Vec3.equal_iff_along, Vec3.equal_iff_along]
  exact ⟨fun axis => Single.equal_of_atMost (otherLower axis).1 (lower axis).1,
    fun axis => Single.equal_of_atMost (upper axis).2 (otherUpper axis).2⟩

theorem ofPoint (number : point.isNumber = true) :
    (Aabb.ofPoint point).Fits [point] where
  contains := by
    rw [List.forall_mem_singleton, contains_iff_along]
    intro axis
    have self := Single.atMost_refl (Vec3.isNumber_iff_along.mp number axis)
    exact ⟨self, self⟩
  least other contains := by
    rw [List.forall_mem_singleton] at contains
    exact ⟨contains, contains⟩

/-- The union of two boxes that fit is the box of both lists. -/
theorem union (fits : aabb.Fits points) (another : other.Fits others) :
    (aabb.union other).Fits (points ++ others) where
  contains point member :=
    contains_union fits.isNumber another.isNumber <|
      (List.mem_append.mp member).imp (fits.contains point) (another.contains point)
  least box contains := by
    rw [List.forall_mem_append] at contains
    rcases fits.least box contains.1 with ⟨lower, upper⟩
    rcases another.least box contains.2 with ⟨otherLower, otherUpper⟩
    exact ⟨contains_of_along lower otherLower fun axis =>
        (Vec3.along_min _ _ axis).symm ▸ Scalar.min_cases _ _,
      contains_of_along upper otherUpper fun axis =>
        (Vec3.along_max _ _ axis).symm ▸ Scalar.max_cases _ _⟩

/-- A box that is enlarged by points fits them too. -/
theorem foldl_enlarge (fits : aabb.Fits points)
    (numbers : ∀ point ∈ others, point.isNumber = true) :
    (others.foldl enlarge aabb).Fits (points ++ others) := by
  induction others generalizing aabb points with
  | nil => rwa [List.append_nil]
  | cons point others induction =>
      rw [List.forall_mem_cons] at numbers
      have enlarged := induction (fits.union (ofPoint numbers.1)) numbers.2
      rwa [List.append_assoc] at enlarged

end Fits

/-- Points that are numbers have a box that fits. -/
theorem exists_fits (nonempty : points ≠ [])
    (numbers : ∀ point ∈ points, point.isNumber = true) :
    ∃ aabb, ofPoints? points = some aabb ∧ aabb.Fits points := by
  cases points with
  | nil => exact absurd rfl nonempty
  | cons first rest =>
      rw [List.forall_mem_cons] at numbers
      exact ⟨_, rfl, (Fits.ofPoint numbers.1).foldl_enlarge numbers.2⟩

/--
The box of points that are numbers contains all of them, and its corners lie in every
other box that does.  It is numerically the same for every order of the points, and its
union with the box of other points is numerically the box of both lists.
-/
theorem exists_least_box (nonempty : points ≠ [])
    (numbers : ∀ point ∈ points, point.isNumber = true) :
    ∃ aabb, ofPoints? points = some aabb ∧
      (∀ point ∈ points, aabb.contains point = true) ∧
      (∀ other : Aabb Single, (∀ point ∈ points, other.contains point = true) →
        other.contains aabb.min = true ∧ other.contains aabb.max = true) ∧
      (∀ order : List (Vec3 Single), order.Perm points →
        ∃ other, ofPoints? order = some other ∧ other.equal aabb = true) ∧
      ∀ others : List (Vec3 Single), others ≠ [] →
        (∀ point ∈ others, point.isNumber = true) →
        ∃ other joined, ofPoints? others = some other ∧
          ofPoints? (points ++ others) = some joined ∧
          (aabb.union other).equal joined = true := by
  rcases exists_fits nonempty numbers with ⟨aabb, found, fits⟩
  refine ⟨aabb, found, fits.contains, fits.least, ?_, ?_⟩
  · intro order perm
    have order_nonempty : order ≠ [] := by
      rintro rfl
      exact nonempty perm.nil_eq.symm
    rcases exists_fits order_nonempty
        fun point member => numbers point (perm.mem_iff.mp member) with
      ⟨other, otherFound, otherFits⟩
    exact ⟨other, otherFound,
      otherFits.equal (fits.congr fun point => perm.mem_iff)⟩
  · intro others others_nonempty others_numbers
    rcases exists_fits others_nonempty others_numbers with ⟨other, otherFound, otherFits⟩
    rcases exists_fits (List.append_ne_nil_of_left_ne_nil nonempty others)
        (List.forall_mem_append.mpr ⟨numbers, others_numbers⟩) with
      ⟨joined, joinedFound, joinedFits⟩
    exact ⟨other, joined, otherFound, joinedFound,
      (fits.union otherFits).equal joinedFits⟩

/-- Two points with zeros of different sign, and a third one that is infinitely far. -/
def signedCorners : List (Vec3 Single) :=
  [⟨0, 1, -.infinity⟩, ⟨-0, -1, 0⟩, ⟨.infinity, 1, -0⟩]

/-- In the other order, the box has zeros of the other sign. -/
theorem signedCorners_least_box :
    (signedCorners ≠ [] ∧ ∀ point ∈ signedCorners, point.isNumber = true) ∧
      ∃ aabb, ofPoints? signedCorners = some aabb ∧
        (∀ point ∈ signedCorners, aabb.contains point = true) ∧
        (∀ other : Aabb Single,
          (∀ point ∈ signedCorners, other.contains point = true) →
            other.contains aabb.min = true ∧ other.contains aabb.max = true) ∧
        (∃ other, ofPoints? signedCorners.reverse = some other ∧ other ≠ aabb ∧
          other.equal aabb = true) ∧
        ∃ other joined, ofPoints? [⟨1, .half, .two⟩] = some other ∧
          ofPoints? (signedCorners ++ [⟨1, .half, .two⟩]) = some joined ∧
          (aabb.union other).equal joined = true := by
  have nonempty : signedCorners ≠ [] := by decide
  have numbers : ∀ point ∈ signedCorners, point.isNumber = true := by decide
  rcases exists_least_box nonempty numbers with
    ⟨aabb, found, contains, least, reordered, joined⟩
  rcases reordered signedCorners.reverse (List.reverse_perm _) with
    ⟨other, otherFound, same⟩
  refine ⟨⟨nonempty, numbers⟩, aabb, found, contains, least,
    ⟨other, otherFound, ?_, same⟩, joined [⟨1, .half, .two⟩] (by decide) (by decide)⟩
  rintro rfl
  exact absurd (otherFound.trans found.symm) (by decide)

end Aabb

end SolidField
