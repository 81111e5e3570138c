import SolidField.Proofs.Kernel.Outline
import SolidField.Proofs.Numeric.Squares

/-!
# First vertices of polygons

In single precision the distance to a polygon does not depend on the vertex that comes
first.  Edges whose square is not a number are passed over, and no square that a walk
finds has a sign, so that the least one is the same to the last bit.
-/

namespace SolidField

namespace Kernel

variable {edges others : List (Vec2 Single × Vec2 Single)}

/-- The square of the distance to an edge has no sign. -/
theorem isNegative_edgeSquare (point : Vec2 Single) (edge : Vec2 Single × Vec2 Single) :
    (edgeSquare point edge).isNegative = false :=
  Single.isNegative_add (Single.isNegative_mul_self _) (Single.isNegative_mul_self _)

/-- What is less than a number is one. -/
theorem isNaN_of_less {a b : Single} (less : a.less b = true) : a.isNaN = false := by
  simp only [Single.less, Bool.and_eq_true, Bool.not_eq_true'] at less
  exact less.1.1

/-- A walk from the start finds a number without a sign. -/
theorem square_isNumber (point : Vec2 Single) (edges : List (Vec2 Single × Vec2 Single)) :
    let square := (edges.foldl (OutlineWalk.step point) .start).square
    square.isNegative = false ∧ square.isNaN = false := by
  intro square
  rcases OutlineWalk.square_foldl_step_cases point edges .start with
    same | ⟨edge, -, same, less⟩
  · have same : square = Single.largest := same
    rw [same]
    decide
  · have same : square = edgeSquare point edge := same
    rw [same]
    exact ⟨isNegative_edgeSquare point edge, isNaN_of_less less⟩

/-- A walk has the sign one or its negative. -/
theorem sign_isUnit (point : Vec2 Single) (edges : List (Vec2 Single × Vec2 Single)) :
    (edges.foldl (OutlineWalk.step point) .start).sign = 1 ∨
      (edges.foldl (OutlineWalk.step point) .start).sign = -1 := by
  have turned (crossings : Nat) :
      (fun sign : Single => -sign)^[crossings] 1 = 1 ∨
        (fun sign : Single => -sign)^[crossings] 1 = -1 := by
    induction crossings with
    | zero => exact Or.inl rfl
    | succ crossings induction =>
        rw [Function.iterate_succ_apply']
        rcases induction with same | same
        · exact Or.inr (congrArg (-·) same)
        · exact Or.inl ((congrArg (-·) same).trans (Single.neg_neg 1))
  rw [OutlineWalk.sign_foldl_step_eq]
  exact turned _

/-- Walks along the same edges in different order end alike. -/
theorem foldl_step_of_perm (point : Vec2 Single) (same : edges.Perm others) :
    (edges.foldl (OutlineWalk.step point) .start).square =
        (others.foldl (OutlineWalk.step point) .start).square ∧
      (edges.foldl (OutlineWalk.step point) .start).sign =
        (others.foldl (OutlineWalk.step point) .start).sign := by
  rcases square_isNumber point edges with ⟨nonneg, number⟩
  rcases square_isNumber point others with ⟨otherNonneg, otherNumber⟩
  constructor
  · refine Single.eq_of_not_less nonneg otherNonneg number otherNumber ?_ ?_
    · exact OutlineWalk.less_square_of_subset .start fun edge member =>
        ⟨edge, same.mem_iff.mp member, rfl⟩
    · exact OutlineWalk.less_square_of_subset .start fun edge member =>
        ⟨edge, same.mem_iff.mpr member, rfl⟩
  · rw [OutlineWalk.sign_foldl_step_eq, OutlineWalk.sign_foldl_step_eq, same.countP_eq]

/-- The distance to a polygon is a number. -/
theorem isNaN_w_polygon (vertices : List (Vec2 Single)) (point : Vec3 Single) :
    (polygon vertices point).w.isNaN = false := by
  by_cases empty : vertices = []
  · subst empty
    exact (by decide : Single.largest.isNaN = false)
  · rcases square_isNumber point.truncate (outline vertices) with ⟨nonneg, number⟩
    rw [w_polygon empty, Single.isNaN_mul_unit _ (sign_isUnit point.truncate _)]
    exact (Single.isNaN_sqrt_of_nonneg nonneg).trans number

/--
Whichever vertex comes first, the distance to a polygon is the same to the last bit, and
it is a number, also where an edge has a square that is infinite or not a number.
-/
theorem w_polygon_rotate (vertices : List (Vec2 Single)) (shift : Nat)
    (point : Vec3 Single) :
    (polygon (vertices.rotate shift) point).w = (polygon vertices point).w ∧
      (polygon (vertices.rotate shift) point).w.equal (polygon vertices point).w =
        true := by
  have same : (polygon (vertices.rotate shift) point).w = (polygon vertices point).w := by
    by_cases empty : vertices = []
    · rw [empty, List.rotate_nil]
    · have rotated : vertices.rotate shift ≠ [] := mt List.rotate_eq_nil_iff.mp empty
      rcases foldl_step_of_perm point.truncate (outline_rotate_perm vertices shift) with
        ⟨square, sign⟩
      rw [w_polygon empty, w_polygon rotated, square, sign]
  refine ⟨same, ?_⟩
  rw [same, Single.equal, isNaN_w_polygon]
  simp

end Kernel

end SolidField
