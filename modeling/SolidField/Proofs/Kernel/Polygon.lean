import Mathlib.Tactic.LinearCombination
import SolidField.Proofs.Kernel.Distance
import SolidField.Proofs.Kernel.Outline

/-!
# Polygons and their vertices

A walk along a closed outline crosses a horizontal ray an even number of times if the
ray starts to the left of all vertices, and never if it starts beyond them on another
side.  The points with a negative distance to a polygon lie therefore between its
vertices, and the distance of any other point is that to a point of an edge.
-/

namespace SolidField

namespace Kernel

variable {point start finish : Vec2 ℝ} {lower upper : ℝ}

/-! ## Edges -/

/-- The way to a point from its edge starts between the ends of the edge. -/
theorem exists_edgeOffset_eq (point start finish : Vec2 ℝ) :
    ∃ position ∈ Set.Icc (0 : ℝ) 1,
      (edgeOffset point start finish).x =
          point.x - start.x - (finish.x - start.x) * position ∧
        (edgeOffset point start finish).y =
          point.y - start.y - (finish.y - start.y) * position := by
  let edge := finish - start
  refine ⟨if Scalar.less 0 (edge.dot edge) then
    Scalar.clamp 0 1 ((point - start).dot edge / edge.dot edge) else 0, ?_, rfl, rfl⟩
  split
  · exact Scalar.clamp_mem_Icc _
  · exact ⟨le_rfl, zero_le_one⟩

/-- A number between two numbers of an interval lies in the interval. -/
theorem mem_Icc_of_position {a b c offset position lower upper : ℝ}
    (inside : position ∈ Set.Icc (0 : ℝ) 1) (first : a ∈ Set.Icc lower upper)
    (second : b ∈ Set.Icc lower upper)
    (same : offset = c - a - (b - a) * position) :
    lower ≤ c + |offset| ∧ c - |offset| ≤ upper := by
  have between : lower ≤ c - offset ∧ c - offset ≤ upper := by
    rcases inside with ⟨position_nonneg, position_le⟩
    rcases first with ⟨lower_a, a_upper⟩
    rcases second with ⟨lower_b, b_upper⟩
    constructor <;> nlinarith
  constructor
  · linarith [neg_abs_le offset]
  · linarith [le_abs_self offset]

/-- Edges above or below a ray, or to the left of its start, are not crossed. -/
theorem crosses_eq_false
    (beyond : (point.y < start.y ∧ point.y < finish.y) ∨
      (start.y < point.y ∧ finish.y < point.y) ∨
        (start.x < point.x ∧ finish.x < point.x)) :
    crosses point start finish = false := by
  rw [← Bool.not_eq_true, crosses_iff]
  rintro (⟨below, above, left⟩ | ⟨above, below, right⟩)
  · rcases beyond with ⟨start_above, -⟩ | ⟨-, finish_below⟩ | ⟨start_left, finish_left⟩
    · linarith
    · linarith
    · rcases le_total (finish.x - start.x) 0 with falling | rising <;> nlinarith
  · rcases beyond with ⟨-, finish_above⟩ | ⟨start_below, -⟩ | ⟨start_left, finish_left⟩
    · linarith
    · linarith
    · rcases le_total (finish.x - start.x) 0 with falling | rising <;> nlinarith

/-- To the left of an edge, a ray crosses it if just one end is above the ray. -/
theorem crosses_iff_of_left (left : point.x < start.x) (other : point.x < finish.x) :
    crosses point start finish = true ↔
      ¬ (start.y ≤ point.y ↔ finish.y ≤ point.y) := by
  rw [crosses_iff]
  rcases le_or_gt start.y point.y with below | above <;>
    rcases le_or_gt finish.y point.y with finish_below | finish_above
  · simp [below, finish_below, below.not_gt, finish_below.not_gt]
  · have crossed : (finish.y - start.y) * (point.x - start.x) <
        (finish.x - start.x) * (point.y - start.y) := by
      rcases le_total (finish.x - start.x) 0 with falling | rising <;> nlinarith
    simp [below, finish_above, crossed]
  · have crossed : (finish.x - start.x) * (point.y - start.y) ≤
        (finish.y - start.y) * (point.x - start.x) := by
      rcases le_total (finish.x - start.x) 0 with falling | rising <;> nlinarith
    simp [above, finish_below, crossed]
  · simp [above, finish_above, above.not_ge, finish_above.not_ge]

/-! ## Walks -/

namespace OutlineWalk

variable {walk : OutlineWalk ℝ} {edges : List (Vec2 ℝ × Vec2 ℝ)}

theorem sign_foldl_step (point : Vec2 ℝ) (edges : List (Vec2 ℝ × Vec2 ℝ))
    (walk : OutlineWalk ℝ) :
    (edges.foldl (step point) walk).sign = walk.sign ∨
      (edges.foldl (step point) walk).sign = -walk.sign := by
  induction edges generalizing walk with
  | nil => exact Or.inl rfl
  | cons edge edges induction =>
      rw [List.foldl_cons]
      have turned : (walk.step point edge).sign = walk.sign ∨
          (walk.step point edge).sign = -walk.sign := by
        simp only [step]
        split
        · exact Or.inr rfl
        · exact Or.inl rfl
      rcases induction (walk.step point edge) with same | same <;>
        rcases turned with kept | flipped
      · exact Or.inl (same.trans kept)
      · exact Or.inr (same.trans flipped)
      · exact Or.inr (same.trans (congrArg (-·) kept))
      · exact Or.inl (same.trans ((congrArg (-·) flipped).trans (neg_neg _)))

/-- A walk along edges that are not crossed keeps its sign. -/
theorem sign_foldl_step_of_crosses_eq_false
    (apart : ∀ edge ∈ edges, crosses point edge.1 edge.2 = false) :
    (edges.foldl (step point) walk).sign = walk.sign := by
  induction edges generalizing walk with
  | nil => rfl
  | cons edge edges induction =>
      rw [List.forall_mem_cons] at apart
      rw [List.foldl_cons, induction apart.2]
      simp [step, apart.1]

/-- The side of a horizontal ray that a vertex is on. -/
noncomputable def side (point vertex : Vec2 ℝ) : ℝ :=
  if vertex.y ≤ point.y then -1 else 1

theorem side_mul_self (point vertex : Vec2 ℝ) :
    side point vertex * side point vertex = 1 := by
  unfold side
  split <;> norm_num

/-- To the left of an edge, the sign is flipped if its ends are on different sides. -/
theorem sign_step_of_left (left : point.x < start.x) (other : point.x < finish.x) :
    (walk.step point (start, finish)).sign =
      walk.sign * side point start * side point finish := by
  simp only [step, crosses_iff_of_left left other, side]
  by_cases below : start.y ≤ point.y <;> by_cases finish_below : finish.y ≤ point.y <;>
    simp [below, finish_below]

/-- To the left of all vertices, a walk ends on the side of its last vertex. -/
theorem sign_foldl_step_of_left (vertices : List (Vec2 ℝ)) (previous : Vec2 ℝ)
    (walk : OutlineWalk ℝ) (left : ∀ vertex ∈ previous :: vertices, point.x < vertex.x) :
    ((vertices.zip (previous :: vertices)).foldl (step point) walk).sign =
      walk.sign * side point previous *
        side point (vertices.getLast?.getD previous) := by
  induction vertices generalizing previous walk with
  | nil =>
      show walk.sign = walk.sign * side point previous * side point previous
      rw [mul_assoc, side_mul_self, mul_one]
  | cons vertex vertices induction =>
      have ⟨left_previous, left_vertices⟩ := List.forall_mem_cons.mp left
      have left_vertex := left_vertices vertex List.mem_cons_self
      rw [List.zip_cons_cons, List.foldl_cons, List.getLast?_cons, Option.getD_some,
        induction vertex _ left_vertices, sign_step_of_left left_vertex left_previous]
      linear_combination walk.sign * side point previous *
        side point (vertices.getLast?.getD vertex) * side_mul_self point vertex

end OutlineWalk

/-! ## Outlines -/

variable {vertices : List (Vec2 ℝ)}

/-- The edges of an outline run between its vertices. -/
theorem mem_of_mem_outline {edge : Vec2 ℝ × Vec2 ℝ} (member : edge ∈ outline vertices) :
    edge.1 ∈ vertices ∧ edge.2 ∈ vertices := by
  unfold outline at member
  split at member
  · cases member
  · next last found =>
      rcases List.of_mem_zip member with ⟨first, second⟩
      refine ⟨first, ?_⟩
      rcases List.mem_cons.mp second with same | later
      · exact same ▸ List.mem_of_getLast? found
      · exact later

/-- All vertices are on one side of a point. -/
def Beyond (vertices : List (Vec2 ℝ)) (point : Vec2 ℝ) : Prop :=
  (∀ vertex ∈ vertices, point.x < vertex.x) ∨
    (∀ vertex ∈ vertices, vertex.x < point.x) ∨
      (∀ vertex ∈ vertices, point.y < vertex.y) ∨
        ∀ vertex ∈ vertices, vertex.y < point.y

/-- Beyond all vertices, the walk along an outline ends with the sign it starts with. -/
theorem sign_outline (walk : OutlineWalk ℝ) (beyond : Beyond vertices point) :
    ((outline vertices).foldl (OutlineWalk.step point) walk).sign = walk.sign := by
  rcases beyond with left | beyond
  · unfold outline
    split
    · rfl
    · next last found =>
        rw [OutlineWalk.sign_foldl_step_of_left vertices last walk
          (List.forall_mem_cons.mpr ⟨left last (List.mem_of_getLast? found), left⟩),
          found, Option.getD_some, mul_assoc, OutlineWalk.side_mul_self, mul_one]
  · refine OutlineWalk.sign_foldl_step_of_crosses_eq_false fun edge member => ?_
    rcases mem_of_mem_outline member with ⟨first, second⟩
    refine crosses_eq_false ?_
    rcases beyond with right | below | above
    · exact Or.inr (Or.inr ⟨right _ first, right _ second⟩)
    · exact Or.inl ⟨below _ first, below _ second⟩
    · exact Or.inr (Or.inl ⟨above _ first, above _ second⟩)

end Kernel

namespace Shape

open Kernel

variable {metric : Metric} {reach : ℝ} {points : List (Vec2 ℝ)} {point : Vec3 ℝ}

theorem covers_vertex {vertex : Vec2 ℝ} (member : vertex ∈ points) :
    (polygon points).bounds.Covers (.ofPoint (vertex.extend 0)) := by
  rw [bounds]
  cases points with
  | nil => cases member
  | cons first rest =>
      exact Aabb.covers_ofPoints? rfl (List.mem_map_of_mem (f := (·.extend 0)) member)

/-- The points of a negative sign lie between the vertices of a polygon. -/
theorem reaches_of_sign_neg
    (negative : ((outline points).foldl (OutlineWalk.step point.truncate)
      .start).sign = -1) :
    (polygon points).bounds.Reaches .planar 0 point := by
  have beyond_none (beyond : Beyond points point.truncate) : False := by
    have kept : (-1 : ℝ) = 1 := negative.symm.trans (sign_outline .start beyond)
    norm_num at kept
  refine ⟨?_, ?_, ?_, ?_, nofun, nofun⟩
  · refine (not_lt.mp fun left => beyond_none (Or.inl fun _ member => ?_)).trans_eq
      (add_zero _).symm
    exact left.trans_le (covers_vertex member).x_min
  · refine (sub_zero _).trans_le (not_lt.mp fun right =>
      beyond_none (Or.inr (Or.inl fun _ member => ?_)))
    exact (covers_vertex member).x_max.trans_lt right
  · refine (not_lt.mp fun below =>
      beyond_none (Or.inr (Or.inr (Or.inl fun _ member => ?_)))).trans_eq
        (add_zero _).symm
    exact below.trans_le (covers_vertex member).y_min
  · refine (sub_zero _).trans_le (not_lt.mp fun above =>
      beyond_none (Or.inr (Or.inr (Or.inr fun _ member => ?_))))
    exact (covers_vertex member).y_max.trans_lt above

/-- The box of a polygon reaches a point with the way to it from any of its edges. -/
theorem reaches_of_mem_outline {edge : Vec2 ℝ × Vec2 ℝ} (member : edge ∈ outline points) :
    let way := edgeOffset point.truncate edge.1 edge.2
    (polygon points).bounds.Reaches .planar ⟨|way.x|, |way.y|, 0⟩ point := by
  intro way
  rcases mem_of_mem_outline member with ⟨first, second⟩
  rcases exists_edgeOffset_eq point.truncate edge.1 edge.2 with
    ⟨position, inside, same_x, same_y⟩
  have start := covers_vertex first
  have finish := covers_vertex second
  have x := mem_Icc_of_position inside ⟨start.x_min, start.x_max⟩
    ⟨finish.x_min, finish.x_max⟩ same_x
  have y := mem_Icc_of_position inside ⟨start.y_min, start.y_max⟩
    ⟨finish.y_min, finish.y_max⟩ same_y
  exact ⟨x.1, x.2, y.1, y.2, nofun, nofun⟩

theorem within_polygon (vertices : points ≠ []) (bounded : reach * reach < Scalar.largest)
    (near : (Kernel.polygon points point).w ≤ reach) :
    (polygon points).bounds.Within .planar metric
      (max (Kernel.polygon points point).w 0) point := by
  let walk := (outline points).foldl (OutlineWalk.step point.truncate) .start
  have value : (Kernel.polygon points point).w = √walk.square * walk.sign := by
    simp [Kernel.polygon, vertices, walk]
  rcases OutlineWalk.sign_foldl_step point.truncate (outline points) .start with
    positive | negative
  · have positive : walk.sign = 1 := positive
    rw [value, positive, mul_one] at near
    rw [value, positive, mul_one, max_eq_left (Real.sqrt_nonneg _)]
    rcases OutlineWalk.square_foldl_step_cases point.truncate (outline points) .start with
      far | ⟨edge, member, same, -⟩
    · have far : walk.square = Scalar.largest := far
      rw [far, Real.sqrt_le_iff, sq] at near
      exact absurd near.2 bounded.not_ge
    · have same : walk.square = _ := same
      refine ⟨_, .of_planar (Real.sqrt_nonneg _) (abs_nonneg _) (abs_nonneg _) ?_,
        reaches_of_mem_outline member⟩
      rw [same, edgeSquare, Real.mul_self_sqrt (Vec2.dot_self_nonneg _), abs_mul_abs_self,
        abs_mul_abs_self, Vec2.dot_self]
  · refine Aabb.Within.mono ?_ (le_max_right _ _)
    exact ⟨0, .of_planar le_rfl le_rfl le_rfl (by simp), reaches_of_sign_neg negative⟩

end Shape

end SolidField
