import Mathlib.Tactic.Linarith
import Mathlib.Tactic.LinearCombination
import SolidField.Proofs.Kernel.Outline

/-!
# Winding of polygons

In exact arithmetic the nearest point of an edge does not depend on which end comes
first, and neither does the count of its crossing, unless the point is on the edge.
The distance to a polygon is then zero whatever the count.  A polygon has therefore the
same distances in both directions.
-/

universe u

namespace SolidField

/-! ## Exact vectors in the plane -/

namespace OrderedScalar

variable {α : Type u} [OrderedScalar α]

/-- Between zero and one, what is counted from the other end is what is left. -/
theorem clamp_one_sub (a : α) : Scalar.clamp 0 1 (1 - a) = 1 - Scalar.clamp 0 1 a := by
  simp only [Scalar.clamp, less_iff_lt]
  rcases lt_or_ge a 0 with low | notLow
  · have high : (1 : α) < 1 - a := by linarith
    have notLower : ¬1 - a < 0 := by linarith
    simp [low, high, notLower, not_lt.mpr zero_le_one]
  · rcases lt_or_ge 1 a with high | notHigh
    · have low : 1 - a < 0 := by linarith
      simp [notLow.not_gt, high, low, not_lt.mpr zero_le_one]
    · have notLower : ¬1 - a < 0 := by linarith
      have notUpper : ¬1 < 1 - a := by linarith
      simp [notLow.not_gt, notHigh.not_gt, notLower, notUpper]

/-- A number between zero and one is not moved. -/
theorem clamp_of_mem {a : α} (lower : 0 ≤ a) (upper : a ≤ 1) :
    Scalar.clamp 0 1 a = a := by
  simp only [Scalar.clamp, less_iff_lt, lower.not_gt, if_false, upper.not_gt]

theorem dot_self_nonneg (v : Vec2 α) : 0 ≤ v.dot v :=
  add_nonneg (mul_self_nonneg v.x) (mul_self_nonneg v.y)

/-- A vector that is not zero has a positive square. -/
theorem eq_zero_of_dot_self {v : Vec2 α} (notPositive : ¬0 < v.dot v) :
    v.x = 0 ∧ v.y = 0 := by
  have x := mul_self_nonneg v.x
  have y := mul_self_nonneg v.y
  have sum : v.x * v.x + v.y * v.y ≤ 0 := not_lt.mp notPositive
  exact ⟨mul_self_eq_zero.mp (by linarith), mul_self_eq_zero.mp (by linarith)⟩

end OrderedScalar

namespace Kernel

open OrderedScalar

variable {α : Type u}

/-! ## The nearest point of an edge -/

section Position

variable [Scalar α]

/-- How far along an edge its nearest point is. -/
def edgePosition (point start finish : Vec2 α) : α :=
  let edge := finish - start
  if Scalar.less 0 (edge.dot edge) then
    Scalar.clamp 0 1 ((point - start).dot edge / edge.dot edge)
  else
    0

theorem edgeOffset_eq (point start finish : Vec2 α) :
    edgeOffset point start finish =
      ⟨point.x - start.x - (finish.x - start.x) * edgePosition point start finish,
        point.y - start.y - (finish.y - start.y) * edgePosition point start finish⟩ := rfl

end Position

variable [OrderedScalar α] {point start finish : Vec2 α}

theorem edgePosition_of_pos (long : 0 < (finish - start).dot (finish - start)) :
    edgePosition point start finish =
      Scalar.clamp 0 1 ((point - start).dot (finish - start) /
        (finish - start).dot (finish - start)) :=
  if_pos (less_iff_lt.mpr long)

theorem dot_swap (start finish : Vec2 α) :
    (start - finish).dot (start - finish) = (finish - start).dot (finish - start) := by
  show (start.x - finish.x) * (start.x - finish.x) +
      (start.y - finish.y) * (start.y - finish.y) =
    (finish.x - start.x) * (finish.x - start.x) +
      (finish.y - start.y) * (finish.y - start.y)
  ring

/-- From the other end of an edge its nearest point is what is left of it away. -/
theorem edgePosition_swap (long : 0 < (finish - start).dot (finish - start)) :
    edgePosition point finish start = 1 - edgePosition point start finish := by
  have longBack : 0 < (start - finish).dot (start - finish) := by rwa [dot_swap]
  have left : (point - finish).dot (start - finish) =
      (finish - start).dot (finish - start) - (point - start).dot (finish - start) := by
    show (point.x - finish.x) * (start.x - finish.x) +
        (point.y - finish.y) * (start.y - finish.y) =
      (finish.x - start.x) * (finish.x - start.x) +
          (finish.y - start.y) * (finish.y - start.y) -
        ((point.x - start.x) * (finish.x - start.x) +
          (point.y - start.y) * (finish.y - start.y))
    ring
  rw [edgePosition_of_pos long, edgePosition_of_pos longBack, dot_swap, left, sub_div,
    div_self long.ne', clamp_one_sub]

/-- The way from an edge to a point is the same from both ends. -/
theorem edgeOffset_swap (point start finish : Vec2 α) :
    edgeOffset point finish start = edgeOffset point start finish := by
  by_cases long : 0 < (finish - start).dot (finish - start)
  · rw [edgeOffset_eq, edgeOffset_eq, edgePosition_swap long, Vec2.mk.injEq]
    constructor <;> ring
  · -- Both ends are one point.
    rcases eq_zero_of_dot_self long with ⟨x, y⟩
    have x : finish.x = start.x := sub_eq_zero.mp x
    have y : finish.y = start.y := sub_eq_zero.mp y
    have same : finish = start := Vec2.ext x y
    rw [same]

/-! ## Crossings -/

/-- The side of the line through an edge that a point is on: positive, negative or on it. -/
def edgeSide (point start finish : Vec2 α) : α :=
  (finish.x - start.x) * (point.y - start.y) -
    (finish.y - start.y) * (point.x - start.x)

theorem edgeSide_swap (point start finish : Vec2 α) :
    edgeSide point finish start = -edgeSide point start finish := by
  simp only [edgeSide]
  ring

theorem crosses_iff_edgeSide :
    crosses point start finish = true ↔
      (start.y ≤ point.y ∧ point.y < finish.y ∧ 0 < edgeSide point start finish) ∨
        (point.y < start.y ∧ finish.y ≤ point.y ∧ edgeSide point start finish ≤ 0) := by
  rw [crosses_iff, edgeSide, sub_pos, sub_nonpos]

/-- A point level with an edge and on its line is on the edge. -/
theorem edgeOffset_eq_zero
    (level : (start.y ≤ point.y ∧ point.y < finish.y) ∨
      (point.y < start.y ∧ finish.y ≤ point.y))
    (aligned : edgeSide point start finish = 0) : edgeOffset point start finish = 0 := by
  have rise : finish.y - start.y ≠ 0 := by
    rcases level with ⟨below, above⟩ | ⟨below, above⟩
    · exact (sub_pos.mpr (below.trans_lt above)).ne'
    · exact (sub_neg.mpr (above.trans_lt below)).ne
  let position := (point.y - start.y) / (finish.y - start.y)
  have inside : 0 ≤ position ∧ position ≤ 1 := by
    rcases level with ⟨below, above⟩ | ⟨below, above⟩
    · have rising := sub_pos.mpr (below.trans_lt above)
      exact ⟨div_nonneg (sub_nonneg.mpr below) rising.le,
        (div_le_one rising).mpr (sub_le_sub_right above.le _)⟩
    · have falling := sub_neg.mpr (above.trans_lt below)
      exact ⟨div_nonneg_of_nonpos (sub_neg.mpr below).le falling.le,
        (div_le_one_of_neg falling).mpr (sub_le_sub_right above _)⟩
  have y : point.y - start.y = (finish.y - start.y) * position :=
    (mul_div_cancel₀ _ rise).symm
  have x : point.x - start.x = (finish.x - start.x) * position := by
    apply mul_left_cancel₀ rise
    rw [edgeSide] at aligned
    linear_combination (finish.x - start.x) * y - aligned
  have long : 0 < (finish - start).dot (finish - start) :=
    add_pos_of_nonneg_of_pos (mul_self_nonneg _) (mul_self_pos.mpr rise)
  have along : (point - start).dot (finish - start) =
      position * (finish - start).dot (finish - start) := by
    show (point.x - start.x) * (finish.x - start.x) +
        (point.y - start.y) * (finish.y - start.y) =
      position * ((finish.x - start.x) * (finish.x - start.x) +
        (finish.y - start.y) * (finish.y - start.y))
    rw [x, y]
    ring
  have nearest : edgePosition point start finish = position := by
    rw [edgePosition_of_pos long, along, mul_div_cancel_right₀ _ long.ne',
      clamp_of_mem inside.1 inside.2]
  rw [edgeOffset_eq, nearest, x, y, sub_self, sub_self]
  rfl

/-- Both directions of an edge are crossed, or none, unless the point is on the edge. -/
theorem crosses_swap_or (point start finish : Vec2 α) :
    crosses point finish start = crosses point start finish ∨
      edgeOffset point start finish = 0 := by
  by_cases onEdge : edgeOffset point start finish = 0
  · exact Or.inr onEdge
  · refine Or.inl ?_
    rw [Bool.eq_iff_iff, crosses_iff_edgeSide, crosses_iff_edgeSide, edgeSide_swap]
    rcases lt_trichotomy (edgeSide point start finish) 0 with right | aligned | left
    · simp only [right.not_gt, right.le, neg_pos, right, neg_nonpos, right.not_ge]
      tauto
    · have apart := mt (fun level => edgeOffset_eq_zero level aligned) onEdge
      rw [aligned, neg_zero]
      simp only [lt_irrefl, le_refl]
      tauto
    · simp only [left, left.not_ge, neg_pos, left.not_gt, neg_nonpos, left.le]
      tauto

/-! ## Distances -/

theorem edgeSquare_swap (point : Vec2 α) (edge : Vec2 α × Vec2 α) :
    edgeSquare point edge.swap = edgeSquare point edge := by
  rw [edgeSquare, Prod.fst_swap, Prod.snd_swap, edgeOffset_swap]
  rfl

theorem not_less_iff {a b : α} : Scalar.less a b = false ↔ b ≤ a := by
  rw [← Bool.not_eq_true, less_iff_lt, not_lt]

/-- In both directions a walk along an outline finds the same least square. -/
theorem square_outline_reverse (vertices : List (Vec2 α)) (point : Vec2 α)
    (walk : OutlineWalk α) :
    ((outline vertices.reverse).foldl (OutlineWalk.step point) walk).square =
      ((outline vertices).foldl (OutlineWalk.step point) walk).square := by
  have edges := outline_reverse_perm vertices
  apply le_antisymm
  · refine not_less_iff.mp (OutlineWalk.less_square_of_subset walk fun edge member => ?_)
    exact ⟨edge.swap, edges.mem_iff.mpr (List.mem_map_of_mem member),
      edgeSquare_swap point edge⟩
  · refine not_less_iff.mp (OutlineWalk.less_square_of_subset walk fun edge member => ?_)
    rcases List.mem_map.mp (edges.mem_iff.mp member) with ⟨other, listed, rfl⟩
    exact ⟨other, listed, (edgeSquare_swap point other).symm⟩

/-- Off all edges a walk crosses as many in one direction as in the other. -/
theorem countP_outline_reverse {vertices : List (Vec2 α)} {point : Vec2 α}
    (apart : ∀ edge ∈ outline vertices, edgeOffset point edge.1 edge.2 ≠ 0) :
    (outline vertices.reverse).countP (fun edge => crosses point edge.1 edge.2) =
      (outline vertices).countP fun edge => crosses point edge.1 edge.2 := by
  rw [(outline_reverse_perm vertices).countP_eq, List.countP_map]
  refine List.countP_congr fun edge member => ?_
  have same := (crosses_swap_or point edge.1 edge.2).resolve_right (apart edge member)
  exact Eq.congr_left same

/-- The square of a walk that meets an edge with the point is zero. -/
theorem square_eq_zero (largest_nonneg : 0 ≤ (Scalar.largest : α)) {point : Vec2 α}
    {edges : List (Vec2 α × Vec2 α)} {edge : Vec2 α × Vec2 α} (member : edge ∈ edges)
    (onEdge : edgeOffset point edge.1 edge.2 = 0) :
    (edges.foldl (OutlineWalk.step point) .start).square = 0 := by
  apply le_antisymm
  · have zero : edgeSquare point edge = 0 := by
      rw [edgeSquare, onEdge]
      show (0 : α) * 0 + 0 * 0 = 0
      rw [mul_zero, add_zero]
    have least : Scalar.less (edgeSquare point edge)
        (edges.foldl (OutlineWalk.step point) .start).square = false :=
      OutlineWalk.less_square_of_mem member
    rwa [zero, not_less_iff] at least
  · rcases OutlineWalk.square_foldl_step_cases point edges .start with
      same | ⟨other, -, same, -⟩
    · rw [same]
      exact largest_nonneg
    · rw [same]
      exact dot_self_nonneg _

/--
A polygon has the same distances in both directions, whether it crosses itself or
repeats vertices, also on its edges and level with its vertices.
-/
theorem w_polygon_reverse (largest_nonneg : 0 ≤ (Scalar.largest : α))
    (vertices : List (Vec2 α)) (point : Vec3 α) :
    (polygon vertices.reverse point).w = (polygon vertices point).w := by
  by_cases empty : vertices = []
  · subst empty
    rfl
  · have emptyBack : vertices.reverse ≠ [] := by simpa using empty
    rw [w_polygon empty, w_polygon emptyBack, square_outline_reverse]
    by_cases touched : ∃ edge ∈ outline vertices,
        edgeOffset point.truncate edge.1 edge.2 = 0
    · rcases touched with ⟨edge, member, onEdge⟩
      rw [square_eq_zero largest_nonneg member onEdge,
        (sqrt_eq_zero_iff (le_refl 0)).mpr rfl, zero_mul, zero_mul]
    · have apart : ∀ edge ∈ outline vertices,
          edgeOffset point.truncate edge.1 edge.2 ≠ 0 :=
        fun edge member onEdge => touched ⟨edge, member, onEdge⟩
      rw [OutlineWalk.sign_foldl_step_eq, OutlineWalk.sign_foldl_step_eq,
        countP_outline_reverse apart]

/-- A bow tie, where it crosses itself and level with two of its vertices. -/
theorem bowTie_w_polygon_reverse :
    let vertices : List (Vec2 ℝ) := [⟨0, 0⟩, ⟨2, 2⟩, ⟨2, 0⟩, ⟨0, 2⟩]
    0 ≤ (Scalar.largest : ℝ) ∧
      (polygon vertices.reverse ⟨1, 1, 0⟩).w = (polygon vertices ⟨1, 1, 0⟩).w ∧
      (polygon vertices.reverse ⟨1, 2, 0⟩).w = (polygon vertices ⟨1, 2, 0⟩).w := by
  intro vertices
  have largest_nonneg : 0 ≤ (Scalar.largest : ℝ) := Nat.cast_nonneg _
  exact ⟨largest_nonneg, w_polygon_reverse largest_nonneg vertices ⟨1, 1, 0⟩,
    w_polygon_reverse largest_nonneg vertices ⟨1, 2, 0⟩⟩

end Kernel

end SolidField
