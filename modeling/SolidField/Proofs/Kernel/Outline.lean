import Mathlib.Algebra.Order.Field.Basic
import Mathlib.Data.List.Rotate
import Mathlib.Data.List.Zip
import SolidField.Kernel.Polygon
import SolidField.Numeric.Ordered

/-!
# Walks along an outline

The edges of a closed outline do not depend on its first vertex, up to their order, and
the other way round each of them is swapped.  A walk finds the least square, and it flips
its sign as often as it crosses an edge.  Neither depends on the order of the edges,
whatever numbers the edges are made of.
-/

universe u

namespace SolidField

/-- A scalar whose strict comparison is an order; some values may compare with none. -/
class StrictScalar (α : Type u) [Scalar α] : Prop where
  less_irrefl : ∀ a : α, Scalar.less a a = false
  less_trans : ∀ {a b c : α}, Scalar.less a b = true → Scalar.less b c = true →
    Scalar.less a c = true

instance {α : Type u} [OrderedScalar α] : StrictScalar α where
  less_irrefl a := by
    rw [← Bool.not_eq_true, OrderedScalar.less_iff_lt]
    exact lt_irrefl a
  less_trans {a b c} first second := by
    rw [OrderedScalar.less_iff_lt] at first second ⊢
    exact first.trans second

instance : StrictScalar Single where
  less_irrefl := Single.less_irrefl
  less_trans {a b c} first second := by
    simp only [Scalar.less, Single.less, Bool.and_eq_true, Bool.not_eq_true',
      decide_eq_true_eq] at first second ⊢
    exact ⟨⟨first.1.1, second.1.2⟩, first.2.trans second.2⟩

namespace Kernel

variable {α : Type u}

/-! ## Edges of an outline -/

/-- Every vertex stands beside the one before it. -/
theorem outline_eq_zip (vertices : List (Vec2 α)) :
    outline vertices = vertices.zip (vertices.rotate (vertices.length - 1)) := by
  rcases List.eq_nil_or_concat vertices with rfl | ⟨front, last, rfl⟩
  · rfl
  · have rotated : (front ++ [last]).rotate ((front ++ [last]).length - 1) =
        last :: front := by
      rw [List.length_append, List.length_singleton, Nat.add_sub_cancel,
        List.rotate_append_length_eq]
      rfl
    have truncated : (front ++ [last]).zip (last :: (front ++ [last])) =
        (front ++ [last]).zip (last :: front) := by
      have split : (front ++ [last] ++ []).zip (last :: front ++ [last]) =
          (front ++ [last]).zip (last :: front) ++ [].zip [last] :=
        List.zip_append (by simp)
      simpa using split
    rw [List.concat_eq_append, rotated, ← truncated, outline, List.getLast?_concat]

/-- With another first vertex an outline has its edges in another order. -/
theorem outline_rotate (vertices : List (Vec2 α)) (shift : Nat) :
    outline (vertices.rotate shift) = (outline vertices).rotate shift := by
  rw [outline_eq_zip, outline_eq_zip, List.length_rotate, List.rotate_rotate,
    Nat.add_comm, ← List.rotate_rotate]
  exact (List.zipWith_rotate_distrib Prod.mk _ _ _ (List.length_rotate _ _).symm).symm

theorem outline_rotate_perm (vertices : List (Vec2 α)) (shift : Nat) :
    (outline (vertices.rotate shift)).Perm (outline vertices) := by
  rw [outline_rotate]
  exact List.rotate_perm _ _

/-- The other way round an outline has its edges swapped. -/
theorem outline_reverse_perm (vertices : List (Vec2 α)) :
    (outline vertices.reverse).Perm ((outline vertices).map Prod.swap) := by
  by_cases empty : vertices = []
  · subst empty
    exact List.Perm.refl _
  · have positive := List.length_pos_iff.mpr empty
    have before : vertices.reverse.rotate (vertices.length - 1) =
        (vertices.rotate 1).reverse := by
      rw [List.rotate_reverse, Nat.mod_eq_of_lt (Nat.sub_one_lt_of_lt positive),
        Nat.sub_sub_self positive]
    have around : (vertices.rotate 1).rotate (vertices.length - 1) = vertices := by
      rw [List.rotate_rotate, Nat.add_sub_cancel' positive, List.rotate_length]
    have swapped : outline vertices.reverse =
        ((outline (vertices.rotate 1)).map Prod.swap).reverse := by
      rw [outline_eq_zip, outline_eq_zip, List.length_reverse, List.length_rotate, before,
        around, List.zip_swap]
      exact (List.reverse_zipWith (List.length_rotate _ _).symm).symm
    rw [swapped]
    exact (List.reverse_perm _).trans ((outline_rotate_perm vertices 1).map _)

/-! ## Crossings -/

/-- An edge is crossed upwards to the right of a point, or downwards. -/
theorem crosses_iff [OrderedScalar α] {point start finish : Vec2 α} :
    crosses point start finish = true ↔
      (start.y ≤ point.y ∧ point.y < finish.y ∧
          (finish.y - start.y) * (point.x - start.x) <
            (finish.x - start.x) * (point.y - start.y)) ∨
        (point.y < start.y ∧ finish.y ≤ point.y ∧
          (finish.x - start.x) * (point.y - start.y) ≤
            (finish.y - start.y) * (point.x - start.x)) := by
  simp only [crosses, Bool.or_eq_true, Bool.and_eq_true, Bool.not_eq_true',
    ← Bool.not_eq_true, OrderedScalar.less_iff_lt, OrderedScalar.atMost_iff_le, not_lt,
    not_le, and_assoc]
  rfl

/-! ## Walks -/

variable [Scalar α]

/-- The square of the distance to an edge. -/
def edgeSquare (point : Vec2 α) (edge : Vec2 α × Vec2 α) : α :=
  (edgeOffset point edge.1 edge.2).dot (edgeOffset point edge.1 edge.2)

/-- The distance of a polygon with vertices. -/
theorem w_polygon {vertices : List (Vec2 α)} (nonempty : vertices ≠ [])
    (point : Vec3 α) :
    (polygon vertices point).w =
      Scalar.sqrt
          ((outline vertices).foldl (OutlineWalk.step point.truncate) .start).square *
        ((outline vertices).foldl (OutlineWalk.step point.truncate) .start).sign := by
  rw [polygon, if_neg (by simpa using nonempty)]
  rfl

namespace OutlineWalk

variable {point : Vec2 α} {edges others : List (Vec2 α × Vec2 α)}
  {edge : Vec2 α × Vec2 α} {walk : OutlineWalk α}

theorem square_step (point : Vec2 α) (walk : OutlineWalk α) (edge : Vec2 α × Vec2 α) :
    (walk.step point edge).square =
      if Scalar.less (edgeSquare point edge) walk.square then edgeSquare point edge
      else walk.square := rfl

/-- A walk turns its sign at every crossing. -/
theorem sign_foldl_step_eq (point : Vec2 α) (edges : List (Vec2 α × Vec2 α))
    (walk : OutlineWalk α) :
    (edges.foldl (step point) walk).sign =
      (fun sign : α => -sign)^[edges.countP fun edge => crosses point edge.1 edge.2]
        walk.sign := by
  induction edges generalizing walk with
  | nil => rfl
  | cons edge edges induction =>
      rw [List.foldl_cons, induction, List.countP_cons, step]
      cases crosses point edge.1 edge.2 <;> rfl

variable [StrictScalar α]

/-- The square of a walk is its first one, or that of an edge that is less. -/
theorem square_foldl_step_cases (point : Vec2 α) (edges : List (Vec2 α × Vec2 α))
    (walk : OutlineWalk α) :
    (edges.foldl (step point) walk).square = walk.square ∨
      ∃ edge ∈ edges, (edges.foldl (step point) walk).square = edgeSquare point edge ∧
        Scalar.less (edgeSquare point edge) walk.square = true := by
  induction edges generalizing walk with
  | nil => exact Or.inl rfl
  | cons edge edges induction =>
      rw [List.foldl_cons]
      cases nearer : Scalar.less (edgeSquare point edge) walk.square with
      | false =>
          have kept : (walk.step point edge).square = walk.square := by
            rw [square_step, nearer]
            rfl
          rcases induction (walk.step point edge) with same | ⟨later, member, same, less⟩
          · exact Or.inl (same.trans kept)
          · rw [kept] at less
            exact Or.inr ⟨later, List.mem_cons_of_mem _ member, same, less⟩
      | true =>
          have taken : (walk.step point edge).square = edgeSquare point edge := by
            rw [square_step, nearer]
            rfl
          rcases induction (walk.step point edge) with same | ⟨later, member, same, less⟩
          · exact Or.inr ⟨edge, List.mem_cons_self, same.trans taken, nearer⟩
          · rw [taken] at less
            exact Or.inr ⟨later, List.mem_cons_of_mem _ member, same,
              StrictScalar.less_trans less nearer⟩

/-- What is not less than a walk is not less than it on its further way. -/
theorem less_square_foldl_step {square : α}
    (apart : Scalar.less square walk.square = false) :
    Scalar.less square (edges.foldl (step point) walk).square = false := by
  rcases square_foldl_step_cases point edges walk with same | ⟨edge, -, same, less⟩
  · rw [same, apart]
  · rw [same, ← Bool.not_eq_true]
    intro below
    exact Bool.eq_false_iff.mp apart (StrictScalar.less_trans below less)

/-- No edge is nearer than a walk finds. -/
theorem less_square_of_mem (member : edge ∈ edges) :
    Scalar.less (edgeSquare point edge) (edges.foldl (step point) walk).square = false := by
  induction edges generalizing walk with
  | nil => cases member
  | cons first edges induction =>
      rw [List.foldl_cons]
      rcases List.mem_cons.mp member with rfl | later
      · refine less_square_foldl_step ?_
        rw [square_step]
        split
        · exact StrictScalar.less_irrefl _
        · next apart => exact Bool.eq_false_iff.mpr apart
      · exact induction later

/-- A walk finds nothing nearer than another one that meets the same squares. -/
theorem less_square_of_subset (walk : OutlineWalk α)
    (met : ∀ other ∈ others, ∃ edge ∈ edges,
      edgeSquare point edge = edgeSquare point other) :
    Scalar.less (others.foldl (step point) walk).square
      (edges.foldl (step point) walk).square = false := by
  rcases square_foldl_step_cases point others walk with same | ⟨other, member, same, -⟩
  · rw [same]
    exact less_square_foldl_step (StrictScalar.less_irrefl _)
  · rcases met other member with ⟨edge, listed, equal⟩
    rw [same, ← equal]
    exact less_square_of_mem listed

end OutlineWalk

end Kernel

end SolidField
