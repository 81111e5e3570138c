import Mathlib.Order.Interval.Set.UnorderedInterval
import SolidField.Proofs.Geometry.Margin

/-!
# Boxes of placed shapes

The box around the moved corners of a box contains whatever lies between the corners
and is moved with them.  A point near the box is therefore moved to a point near the
box of the moved corners: as far as before times the scale in every direction, and
along the axes if cubes are turned into themselves.
-/

namespace SolidField

/-! ## Rotations and lengths -/

namespace Rotation

theorem dot_apply (q : Rotation ℝ) (v : Vec3 ℝ) :
    (q.apply v).dot (q.apply v) = q.lengthSquared * q.lengthSquared * v.dot v := by
  simp only [x_apply, y_apply, z_apply, vector, Vec3.dot, lengthSquared,
    ExactScalar.two_eq]
  ring

/-- A unit rotation keeps lengths. -/
theorem IsUnit.dot_apply {q : Rotation ℝ} (unit : q.IsUnit) (v : Vec3 ℝ) :
    (q.apply v).dot (q.apply v) = v.dot v := by
  rw [Rotation.dot_apply, unit, one_mul, one_mul]

/-- A vector is turned as its planar part and its height are. -/
theorem apply_eq_add (q : Rotation ℝ) (v : Vec3 ℝ) :
    q.apply v = q.apply ⟨v.x, v.y, 0⟩ + (q.apply ⟨0, 0, 1⟩).scale v.z := by
  rw [← apply_scale, ← apply_add]
  congr 1
  ext <;> simp

/-- What keeps the third axis turns the plane without regard to the height. -/
theorem KeepsThirdAxis.apply_planar {q : Rotation ℝ} (keeps : q.KeepsThirdAxis)
    (v : Vec3 ℝ) :
    (q.apply ⟨v.x, v.y, 0⟩).x = (q.apply v).x ∧
      (q.apply ⟨v.x, v.y, 0⟩).y = (q.apply v).y := by
  rw [q.apply_eq_add v]
  simp [keeps.1, keeps.2]

end Rotation

/-! ## Between corners -/

section Intervals

variable {a b c slope bound amount : ℝ}

/-- A number that is near an interval is near a number between its ends. -/
theorem exists_mem_uIcc_of_near (nonneg : 0 ≤ amount) (above : a ≤ c + amount)
    (below : c - amount ≤ b) : ∃ nearest ∈ Set.uIcc a b, |c + -nearest| ≤ amount := by
  rcases le_total c (min a b) with low | low
  · refine ⟨min a b, ⟨le_rfl, min_le_max⟩, abs_le.mpr ⟨?_, ?_⟩⟩
    · linarith [min_le_left a b]
    · linarith
  · rcases le_total (max a b) c with high | high
    · refine ⟨max a b, ⟨min_le_max, le_rfl⟩, abs_le.mpr ⟨?_, ?_⟩⟩
      · linarith
      · linarith [le_max_right a b]
    · exact ⟨c, ⟨low, high⟩, by simpa using nonneg⟩

/-- A linear bound at both ends of an interval holds between them. -/
theorem le_mul_of_mem_uIcc (between : c ∈ Set.uIcc a b) (first : bound ≤ slope * a)
    (second : bound ≤ slope * b) : bound ≤ slope * c := by
  rcases Set.mem_uIcc.mp between with ⟨left, right⟩ | ⟨left, right⟩ <;>
    rcases le_total 0 slope with rising | falling <;> nlinarith

end Intervals

namespace Aabb

/-- A point lies between the corners of a box, whichever of them is the lower one. -/
structure Spans (aabb : Aabb ℝ) (point : Vec3 ℝ) : Prop where
  x : point.x ∈ Set.uIcc aabb.min.x aabb.max.x
  y : point.y ∈ Set.uIcc aabb.min.y aabb.max.y
  z : point.z ∈ Set.uIcc aabb.min.z aabb.max.z

variable {aabb : Aabb ℝ} {point direction : Vec3 ℝ} {offset bound : ℝ}

/-- A linear bound at the corners of a box holds between them. -/
theorem Spans.le_dot (spans : aabb.Spans point)
    (corners : ∀ corner ∈ aabb.vertices, bound ≤ direction.dot corner + offset) :
    bound ≤ direction.dot point + offset := by
  simp only [vertices, List.forall_mem_cons, Vec3.dot] at corners ⊢
  rcases corners with ⟨c₀, c₁, c₂, c₃, c₄, c₅, c₆, c₇, -⟩
  have along_x {y z : ℝ}
      (first : bound ≤
        direction.x * aabb.min.x + direction.y * y + direction.z * z + offset)
      (second : bound ≤
        direction.x * aabb.max.x + direction.y * y + direction.z * z + offset) :
      bound - (direction.x * point.x + direction.z * z + offset) ≤ direction.y * y := by
    have inside : bound - (direction.y * y + direction.z * z + offset) ≤
        direction.x * point.x :=
      le_mul_of_mem_uIcc spans.x (by linarith) (by linarith)
    linarith
  have along_y {z : ℝ}
      (first : bound - (direction.x * point.x + direction.z * z + offset) ≤
        direction.y * aabb.min.y)
      (second : bound - (direction.x * point.x + direction.z * z + offset) ≤
        direction.y * aabb.max.y) :
      bound - (direction.x * point.x + direction.y * point.y + offset) ≤
        direction.z * z := by
    have inside := le_mul_of_mem_uIcc spans.y first second
    linarith
  have inside := le_mul_of_mem_uIcc spans.z
    (along_y (along_x c₀ c₁) (along_x c₂ c₃))
    (along_y (along_x c₄ c₅) (along_x c₆ c₇))
  linarith

/-- What a box reaches is as near to a point between its corners. -/
theorem Reaches.exists_spans {dimension : Dimension} {metric : Metric}
    {distance : ℝ} {margin : Vec3 ℝ}
    (reaches : aabb.Reaches dimension margin point)
    (admits : metric.Admits distance margin) :
    ∃ nearest, aabb.Spans nearest ∧ |(point + -nearest).x| ≤ margin.x ∧
      |(point + -nearest).y| ≤ margin.y ∧
        (dimension = .solid → |(point + -nearest).z| ≤ margin.z) := by
  rcases exists_mem_uIcc_of_near admits.x_nonneg reaches.x_min reaches.x_max with
    ⟨x, x_between, x_near⟩
  rcases exists_mem_uIcc_of_near admits.y_nonneg reaches.y_min reaches.y_max with
    ⟨y, y_between, y_near⟩
  cases dimension with
  | planar =>
      exact ⟨⟨x, y, aabb.min.z⟩, ⟨x_between, y_between, Set.left_mem_uIcc⟩, x_near,
        y_near, nofun⟩
  | solid =>
      rcases exists_mem_uIcc_of_near admits.z_nonneg (reaches.z_min rfl)
        (reaches.z_max rfl) with ⟨z, z_between, z_near⟩
      exact ⟨⟨x, y, z⟩, ⟨x_between, y_between, z_between⟩, x_near, y_near,
        fun _ => z_near⟩

end Aabb

/-! ## Moved boxes -/

namespace Similarity

open Aabb

variable {t : Similarity ℝ} {aabb : Aabb ℝ} {point : Vec3 ℝ}

/-- A linear function of a moved point is a linear function of the point. -/
theorem dot_apply (t : Similarity ℝ) (direction point : Vec3 ℝ) :
    direction.dot (t.apply point) =
      (⟨direction.dot (t.rotation.apply ⟨1, 0, 0⟩) * t.scale,
          direction.dot (t.rotation.apply ⟨0, 1, 0⟩) * t.scale,
          direction.dot (t.rotation.apply ⟨0, 0, 1⟩) * t.scale⟩ : Vec3 ℝ).dot point +
        direction.dot t.translation := by
  simp only [Vec3.dot, apply, Vec3.x_add, Vec3.y_add, Vec3.z_add, Rotation.x_apply,
    Rotation.y_apply, Rotation.z_apply, Vec3.x_scale, Vec3.y_scale, Vec3.z_scale]
  ring

/-- The box of the moved corners covers what is moved from between the corners. -/
theorem covers_apply (spans : aabb.Spans point) :
    (t.applyAabb aabb).Covers (ofPoint (t.apply point)) := by
  have covers {corner : Vec3 ℝ} (member : corner ∈ aabb.vertices) :
      (t.applyAabb aabb).Covers (ofPoint (t.apply corner)) :=
    covers_ofPoints? rfl (List.mem_map_of_mem member)
  have moved (direction : Vec3 ℝ) (bound : ℝ)
      (corners : ∀ corner ∈ aabb.vertices, bound ≤ direction.dot (t.apply corner)) :
      bound ≤ direction.dot (t.apply point) := by
    simp only [dot_apply] at corners ⊢
    exact spans.le_dot corners
  -- Each side of the box bounds a coordinate or its opposite from below.
  constructor
  · simpa [Vec3.dot, ofPoint] using moved ⟨1, 0, 0⟩ _ fun _ member => by
      simpa [Vec3.dot, ofPoint] using (covers member).x_min
  · simpa [Vec3.dot, ofPoint] using moved ⟨-1, 0, 0⟩ (-_) fun _ member => by
      simpa [Vec3.dot, ofPoint] using (covers member).x_max
  · simpa [Vec3.dot, ofPoint] using moved ⟨0, 1, 0⟩ _ fun _ member => by
      simpa [Vec3.dot, ofPoint] using (covers member).y_min
  · simpa [Vec3.dot, ofPoint] using moved ⟨0, -1, 0⟩ (-_) fun _ member => by
      simpa [Vec3.dot, ofPoint] using (covers member).y_max
  · simpa [Vec3.dot, ofPoint] using moved ⟨0, 0, 1⟩ _ fun _ member => by
      simpa [Vec3.dot, ofPoint] using (covers member).z_min
  · simpa [Vec3.dot, ofPoint] using moved ⟨0, 0, -1⟩ (-_) fun _ member => by
      simpa [Vec3.dot, ofPoint] using (covers member).z_max

/-- The way between two points is turned and scaled as the points are. -/
theorem apply_eq_add (t : Similarity ℝ) (start finish : Vec3 ℝ) :
    t.apply finish =
      t.apply start + t.rotation.apply ((finish + -start).scale t.scale) := by
  simp only [apply, Rotation.apply_scale, Rotation.apply_add, Rotation.apply_neg]
  ext <;> simp <;> ring

end Similarity

namespace Aabb

variable {dimension : Dimension} {metric inner : Metric} {aabb : Aabb ℝ}
  {distance : ℝ} {t : Similarity ℝ} {point : Vec3 ℝ}

/--
A turned and scaled vector is as short as before times the scale: in every direction,
or along the axes if cubes are turned into themselves.
-/
theorem admits_turned {error margin : Vec3 ℝ} (unit : t.rotation.IsUnit)
    (scaled : 0 < t.scale)
    (turned : inner = .radial ∨ metric = .axial ∧ t.rotation.KeepsCubes)
    (admits : inner.Admits distance margin) (x : |error.x| ≤ margin.x)
    (y : |error.y| ≤ margin.y) (z : |error.z| ≤ margin.z) :
    let moved := t.rotation.apply (error.scale t.scale)
    metric.Admits (distance * t.scale) ⟨|moved.x|, |moved.y|, |moved.z|⟩ := by
  intro moved
  have nonneg : 0 ≤ distance * t.scale :=
    mul_nonneg (admits.x_nonneg.trans admits.x_le) scaled.le
  rcases turned with rfl | ⟨rfl, keeps⟩
  · refine .of_dot_le nonneg (abs_nonneg _) (abs_nonneg _) (abs_nonneg _) ?_
    have same : moved.dot moved = error.dot error * (t.scale * t.scale) := by
      rw [unit.dot_apply]
      simp only [Vec3.dot_self, Vec3.x_scale, Vec3.y_scale, Vec3.z_scale]
      ring
    have short : error.dot error ≤ distance * distance := by
      refine le_trans ?_ (admits.dot_le rfl)
      rw [Vec3.dot_self, Vec3.dot_self, ← abs_mul_abs_self error.x,
        ← abs_mul_abs_self error.y, ← abs_mul_abs_self error.z]
      exact add_le_add (add_le_add (mul_self_le_mul_self (abs_nonneg _) x)
        (mul_self_le_mul_self (abs_nonneg _) y)) (mul_self_le_mul_self (abs_nonneg _) z)
    rw [Vec3.dot_self, abs_mul_abs_self, abs_mul_abs_self, abs_mul_abs_self,
      ← Vec3.dot_self, same]
    nlinarith [mul_self_nonneg t.scale]
  · have bounded {part amount : ℝ} (near : |part| ≤ amount) (short : amount ≤ distance) :
        |part * t.scale| ≤ distance * t.scale := by
      rw [abs_mul, abs_of_pos scaled]
      exact mul_le_mul_of_nonneg_right (near.trans short) scaled.le
    rcases keeps (error.scale t.scale) (distance * t.scale) (bounded x admits.x_le)
      (bounded y admits.y_le) (bounded z admits.z_le) with ⟨x_le, y_le, z_le⟩
    exact ⟨abs_nonneg _, abs_nonneg _, abs_nonneg _, x_le, y_le, z_le, nofun⟩

/--
A point is as far from a moved point between the corners as the turned and scaled
margin tells; in the plane, the way between them is taken without its height.
-/
theorem Reaches.exists_way {margin : Vec3 ℝ} (unit : t.rotation.IsUnit)
    (scaled : 0 < t.scale)
    (level : dimension = .planar → t.rotation.KeepsThirdAxis)
    (admits : inner.Admits distance margin)
    (reaches : aabb.Reaches dimension margin (t.inverse.apply point)) :
    ∃ nearest way : Vec3 ℝ, aabb.Spans nearest ∧ |way.x| ≤ margin.x ∧ |way.y| ≤ margin.y ∧
      |way.z| ≤ margin.z ∧
      let turned := t.rotation.apply (way.scale t.scale)
      point.x = (t.apply nearest).x + turned.x ∧
        point.y = (t.apply nearest).y + turned.y ∧
        (dimension = .solid → point.z = (t.apply nearest).z + turned.z) := by
  rcases reaches.exists_spans admits with ⟨nearest, spans, x_near, y_near, z_near⟩
  have moved := t.apply_eq_add nearest (t.inverse.apply point)
  rw [Similarity.apply_inverse_apply unit scaled.ne'] at moved
  generalize t.inverse.apply point + -nearest = way at moved x_near y_near z_near
  have x := congrArg Vec3.x moved
  have y := congrArg Vec3.y moved
  have z := congrArg Vec3.z moved
  cases dimension with
  | solid =>
      exact ⟨nearest, way, spans, x_near, y_near, z_near rfl, x, y, fun _ => z⟩
  | planar =>
      have ⟨same_x, same_y⟩ := (level rfl).apply_planar (way.scale t.scale)
      have flat : (⟨way.x, way.y, 0⟩ : Vec3 ℝ).scale t.scale =
          ⟨(way.scale t.scale).x, (way.scale t.scale).y, 0⟩ := by
        ext <;> simp
      refine ⟨nearest, ⟨way.x, way.y, 0⟩, spans, x_near, y_near, ?_, ?_, ?_, nofun⟩
      · simpa using admits.z_nonneg
      · rw [flat, same_x]
        exact x
      · rw [flat, same_y]
        exact y

/-- A point near a box is moved to a point near the box of the moved corners. -/
theorem Within.applyAabb (unit : t.rotation.IsUnit) (scaled : 0 < t.scale)
    (level : dimension = .planar → t.rotation.KeepsThirdAxis)
    (turned : inner = .radial ∨ metric = .axial ∧ t.rotation.KeepsCubes)
    (within : aabb.Within dimension inner distance (t.inverse.apply point)) :
    (t.applyAabb aabb).Within dimension metric (distance * t.scale) point := by
  rcases within with ⟨margin, admits, reaches⟩
  rcases reaches.exists_way unit scaled level admits with
    ⟨nearest, way, spans, way_x, way_y, way_z, x, y, z⟩
  have covers := Similarity.covers_apply (t := t) spans
  have along {lower upper place step coordinate : ℝ}
      (same : coordinate = place + step) (above : lower ≤ place)
      (below : place ≤ upper) :
      lower ≤ coordinate + |step| ∧ coordinate - |step| ≤ upper := by
    constructor
    · linarith [neg_abs_le step]
    · linarith [le_abs_self step]
  exact ⟨_, admits_turned unit scaled turned admits way_x way_y way_z,
    { x_min := (along x covers.x_min covers.x_max).1
      x_max := (along x covers.x_min covers.x_max).2
      y_min := (along y covers.y_min covers.y_max).1
      y_max := (along y covers.y_min covers.y_max).2
      z_min := fun solid => (along (z solid) covers.z_min covers.z_max).1
      z_max := fun solid => (along (z solid) covers.z_min covers.z_max).2 }⟩

end Aabb

end SolidField
