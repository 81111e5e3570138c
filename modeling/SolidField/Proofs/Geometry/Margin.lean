import Mathlib.Tactic.Linarith
import SolidField.Proofs.Shape.Guarded

/-!
# Points near boxes

A point is within a distance of a box if the box contains it once it is grown by a
margin on every axis that is not longer than the distance.  How the box of a shape
changes along its tree decides what becomes of the margin.
-/

namespace SolidField

/-! ## Margins -/

/-- A margin that is as long as a distance at most. -/
structure Metric.Admits (metric : Metric) (distance : ℝ) (margin : Vec3 ℝ) :
    Prop where
  x_nonneg : 0 ≤ margin.x
  y_nonneg : 0 ≤ margin.y
  z_nonneg : 0 ≤ margin.z
  x_le : margin.x ≤ distance
  y_le : margin.y ≤ distance
  z_le : margin.z ≤ distance
  /-- Measured in every direction, the margin is not longer either. -/
  dot_le : metric = .radial → margin.dot margin ≤ distance * distance

theorem Vec3.dot_self (v : Vec3 ℝ) :
    v.dot v = v.x * v.x + v.y * v.y + v.z * v.z := rfl

/-- What is left of a length once an amount is taken off. -/
def excess (length amount : ℝ) : ℝ :=
  max (length - amount) 0

theorem excess_nonneg (length amount : ℝ) : 0 ≤ excess length amount :=
  le_max_right _ _

theorem le_excess (length amount : ℝ) : length - amount ≤ excess length amount :=
  le_max_left _ _

theorem excess_le_iff {length amount bound : ℝ} :
    excess length amount ≤ bound ↔ length ≤ bound + amount ∧ 0 ≤ bound := by
  rw [excess, max_le_iff, sub_le_iff_le_add]

theorem excess_mono {length longer amount : ℝ} (atMost : length ≤ longer) :
    excess length amount ≤ excess longer amount :=
  max_le_max (sub_le_sub_right atMost amount) le_rfl

/-- Less is left of a part than its share of what is left of the whole. -/
theorem excess_mul_le {part whole amount : ℝ} (nonneg : 0 ≤ part)
    (atMost : part ≤ whole) (inside : 0 ≤ amount) (beyond : amount ≤ whole) :
    excess part amount * whole ≤ part * (whole - amount) := by
  unfold excess
  rcases max_cases (part - amount) 0 with ⟨same, -⟩ | ⟨same, -⟩ <;> rw [same]
  · nlinarith
  · nlinarith

/-- Taking an amount off every component takes it off the length. -/
theorem excess_square_le {x y z length amount : ℝ} (x_nonneg : 0 ≤ x)
    (y_nonneg : 0 ≤ y) (z_nonneg : 0 ≤ z) (nonneg : 0 ≤ length)
    (inside : 0 ≤ amount) (short : x * x + y * y + z * z ≤ length * length) :
    excess x amount * excess x amount + excess y amount * excess y amount +
        excess z amount * excess z amount ≤
      excess length amount * excess length amount := by
  have x_le : x ≤ length := by nlinarith [mul_self_nonneg y, mul_self_nonneg z]
  have y_le : y ≤ length := by nlinarith [mul_self_nonneg x, mul_self_nonneg z]
  have z_le : z ≤ length := by nlinarith [mul_self_nonneg x, mul_self_nonneg y]
  rcases le_or_gt length amount with consumed | beyond
  · have nothing {part : ℝ} (atMost : part ≤ length) : excess part amount = 0 :=
      max_eq_right (by linarith)
    simp [nothing x_le, nothing y_le, nothing z_le, mul_self_nonneg]
  · have rest : excess length amount = length - amount :=
      max_eq_left (sub_nonneg.mpr beyond.le)
    have positive : 0 < length := inside.trans_lt beyond
    have share {part : ℝ} (nonneg : 0 ≤ part) (atMost : part ≤ length) :
        excess part amount * length * (excess part amount * length) ≤
          part * part * ((length - amount) * (length - amount)) := by
      have scaled := mul_self_le_mul_self
        (mul_nonneg (excess_nonneg part amount) positive.le)
        (excess_mul_le nonneg atMost inside beyond.le)
      linarith
    rw [rest]
    refine le_of_mul_le_mul_right ?_ (mul_pos positive positive)
    have shares := add_le_add (add_le_add (share x_nonneg x_le) (share y_nonneg y_le))
      (share z_nonneg z_le)
    have whole := mul_le_mul_of_nonneg_right short
      (mul_self_nonneg (length - amount))
    linarith

namespace Metric.Admits

variable {metric : Metric} {distance farther amount : ℝ} {margin : Vec3 ℝ}

theorem mono (admits : metric.Admits distance margin) (atMost : distance ≤ farther) :
    metric.Admits farther margin where
  x_nonneg := admits.x_nonneg
  y_nonneg := admits.y_nonneg
  z_nonneg := admits.z_nonneg
  x_le := admits.x_le.trans atMost
  y_le := admits.y_le.trans atMost
  z_le := admits.z_le.trans atMost
  dot_le radial :=
    (admits.dot_le radial).trans
      (mul_self_le_mul_self (admits.x_nonneg.trans admits.x_le) atMost)

/-- A margin that is short in every direction is short in any metric. -/
theorem of_dot_le (nonneg : 0 ≤ distance) (x_nonneg : 0 ≤ margin.x)
    (y_nonneg : 0 ≤ margin.y) (z_nonneg : 0 ≤ margin.z)
    (short : margin.dot margin ≤ distance * distance) :
    metric.Admits distance margin := by
  rw [Vec3.dot_self] at short
  refine ⟨x_nonneg, y_nonneg, z_nonneg, ?_, ?_, ?_, fun _ => short⟩ <;>
    refine abs_le_of_sq_le_sq' ?_ nonneg |>.2 <;>
    nlinarith [mul_self_nonneg margin.x, mul_self_nonneg margin.y,
      mul_self_nonneg margin.z]

theorem of_planar {x y : ℝ} (nonneg : 0 ≤ distance) (x_nonneg : 0 ≤ x)
    (y_nonneg : 0 ≤ y) (short : x * x + y * y ≤ distance * distance) :
    metric.Admits distance ⟨x, y, 0⟩ :=
  of_dot_le nonneg x_nonneg y_nonneg le_rfl (by simpa [Vec3.dot_self] using short)

/-- Along the axes, nothing is longer than a margin of the distance on all of them. -/
theorem axial_splat (nonneg : 0 ≤ distance) :
    Metric.axial.Admits distance (Vec3.splat distance) :=
  ⟨nonneg, nonneg, nonneg, le_rfl, le_rfl, le_rfl, nofun⟩

/-- A planar margin and a height are short if the distance and the height are. -/
theorem extrude {height : ℝ} (admits : metric.Admits distance margin)
    (nonneg : 0 ≤ height) (farther_nonneg : 0 ≤ farther)
    (short : distance * distance + height * height ≤ farther * farther) :
    metric.Admits farther ⟨margin.x, margin.y, height⟩ := by
  have distance_le : distance ≤ farther := by nlinarith [mul_self_nonneg height]
  refine ⟨admits.x_nonneg, admits.y_nonneg, nonneg, admits.x_le.trans distance_le,
    admits.y_le.trans distance_le, ?_, fun radial => ?_⟩
  · show height ≤ farther
    nlinarith [mul_self_nonneg distance]
  · have whole := admits.dot_le radial
    rw [Vec3.dot_self] at whole ⊢
    linarith [mul_self_nonneg margin.z]

/-- The first component of a planar margin may be split among two axes. -/
theorem revolve {x z : ℝ} (admits : metric.Admits distance margin)
    (x_nonneg : 0 ≤ x) (z_nonneg : 0 ≤ z)
    (short : x * x + z * z ≤ margin.x * margin.x) :
    metric.Admits distance ⟨x, margin.y, z⟩ := by
  have x_le : x ≤ margin.x := by nlinarith [mul_self_nonneg z, admits.x_nonneg]
  have z_le : z ≤ margin.x := by nlinarith [mul_self_nonneg x, admits.x_nonneg]
  refine ⟨x_nonneg, admits.y_nonneg, z_nonneg, x_le.trans admits.x_le, admits.y_le,
    z_le.trans admits.x_le, fun radial => ?_⟩
  have whole := admits.dot_le radial
  rw [Vec3.dot_self] at whole ⊢
  linarith [mul_self_nonneg margin.z]

/-- What is left of a margin is as long as what is left of the distance at most. -/
theorem excess (admits : metric.Admits distance margin) (inside : 0 ≤ amount) :
    metric.Admits (excess distance amount)
      ⟨SolidField.excess margin.x amount, SolidField.excess margin.y amount,
        SolidField.excess margin.z amount⟩ where
  x_nonneg := excess_nonneg _ _
  y_nonneg := excess_nonneg _ _
  z_nonneg := excess_nonneg _ _
  x_le := excess_mono admits.x_le
  y_le := excess_mono admits.y_le
  z_le := excess_mono admits.z_le
  dot_le radial :=
    excess_square_le admits.x_nonneg admits.y_nonneg admits.z_nonneg
      (admits.x_nonneg.trans admits.x_le) inside (admits.dot_le radial)

/-- A margin that is not longer than nothing is short in any metric. -/
theorem of_zero (admits : metric.Admits 0 margin) (other : Metric) :
    other.Admits 0 margin := by
  have x := le_antisymm admits.x_le admits.x_nonneg
  have y := le_antisymm admits.y_le admits.y_nonneg
  have z := le_antisymm admits.z_le admits.z_nonneg
  exact of_dot_le le_rfl x.ge y.ge z.ge (by simp [Vec3.dot_self, x, y, z])

end Metric.Admits

/-! ## Boxes -/

namespace Aabb

/-- A box grown by a margin contains a point, along the axes of a dimension. -/
structure Reaches (dimension : Dimension) (aabb : Aabb ℝ) (margin point : Vec3 ℝ) :
    Prop where
  x_min : aabb.min.x ≤ point.x + margin.x
  x_max : point.x - margin.x ≤ aabb.max.x
  y_min : aabb.min.y ≤ point.y + margin.y
  y_max : point.y - margin.y ≤ aabb.max.y
  z_min : dimension = .solid → aabb.min.z ≤ point.z + margin.z
  z_max : dimension = .solid → point.z - margin.z ≤ aabb.max.z

/-- A point is within a distance of a box. -/
def Within (dimension : Dimension) (metric : Metric) (aabb : Aabb ℝ)
    (distance : ℝ) (point : Vec3 ℝ) : Prop :=
  ∃ margin, metric.Admits distance margin ∧ aabb.Reaches dimension margin point

/-- Every side of a box is at least as far out as that of another one. -/
structure Covers (larger smaller : Aabb ℝ) : Prop where
  x_min : larger.min.x ≤ smaller.min.x
  x_max : smaller.max.x ≤ larger.max.x
  y_min : larger.min.y ≤ smaller.min.y
  y_max : smaller.max.y ≤ larger.max.y
  z_min : larger.min.z ≤ smaller.min.z
  z_max : smaller.max.z ≤ larger.max.z

variable {dimension : Dimension} {metric : Metric} {a b c : Aabb ℝ}
  {distance farther amount : ℝ} {margin wider point : Vec3 ℝ}

theorem Covers.refl (a : Aabb ℝ) : a.Covers a :=
  ⟨le_rfl, le_rfl, le_rfl, le_rfl, le_rfl, le_rfl⟩

theorem Covers.trans (first : a.Covers b) (second : b.Covers c) : a.Covers c where
  x_min := first.x_min.trans second.x_min
  x_max := second.x_max.trans first.x_max
  y_min := first.y_min.trans second.y_min
  y_max := second.y_max.trans first.y_max
  z_min := first.z_min.trans second.z_min
  z_max := second.z_max.trans first.z_max

theorem covers_union_left (a b : Aabb ℝ) : (a.union b).Covers a := by
  constructor <;> simp [union, Vec3.min, Vec3.max, Vec3.zipWith]

theorem covers_union_right (a b : Aabb ℝ) : (a.union b).Covers b := by
  constructor <;> simp [union, Vec3.min, Vec3.max, Vec3.zipWith]

/-- A union of boxes covers all of them. -/
theorem covers_foldl_union (rest : List (Aabb ℝ)) (first : Aabb ℝ) :
    ∀ aabb ∈ first :: rest, (rest.foldl union first).Covers aabb := by
  induction rest generalizing first with
  | nil =>
      intro aabb member
      rw [List.mem_singleton.mp member]
      exact .refl first
  | cons second rest induction =>
      have joined := induction (first.union second)
      have whole := joined _ List.mem_cons_self
      intro aabb member
      rw [List.mem_cons, List.mem_cons] at member
      rcases member with rfl | rfl | later
      · exact whole.trans (covers_union_left aabb second)
      · exact whole.trans (covers_union_right first aabb)
      · exact joined aabb (List.mem_cons_of_mem _ later)

/-- The box of a list of points covers all of them. -/
theorem covers_ofPoints? {points : List (Vec3 ℝ)} (found : ofPoints? points = some a)
    (member : point ∈ points) : a.Covers (ofPoint point) := by
  cases points with
  | nil => cases found
  | cons first rest =>
      cases found
      have same : rest.foldl enlarge (ofPoint first) =
          (rest.map ofPoint).foldl union (ofPoint first) := by
        rw [List.foldl_map]
        rfl
      rw [same]
      refine covers_foldl_union _ _ _ ?_
      rw [← List.map_cons]
      exact List.mem_map_of_mem member

/-- A box that covers another one reaches the points that the other one reaches. -/
theorem Reaches.cover (reaches : b.Reaches dimension margin point)
    (covers : a.Covers b) : a.Reaches dimension margin point where
  x_min := covers.x_min.trans reaches.x_min
  x_max := reaches.x_max.trans covers.x_max
  y_min := covers.y_min.trans reaches.y_min
  y_max := reaches.y_max.trans covers.y_max
  z_min solid := covers.z_min.trans (reaches.z_min solid)
  z_max solid := (reaches.z_max solid).trans covers.z_max

theorem Reaches.widen (reaches : a.Reaches dimension margin point)
    (x_le : margin.x ≤ wider.x) (y_le : margin.y ≤ wider.y)
    (z_le : margin.z ≤ wider.z) : a.Reaches dimension wider point where
  x_min := by linarith [reaches.x_min]
  x_max := by linarith [reaches.x_max]
  y_min := by linarith [reaches.y_min]
  y_max := by linarith [reaches.y_max]
  z_min solid := by linarith [reaches.z_min solid]
  z_max solid := by linarith [reaches.z_max solid]

/-- An overlap of boxes reaches the points that both boxes reach. -/
theorem Reaches.intersection (first : a.Reaches dimension margin point)
    (second : b.Reaches dimension margin point) :
    (a.intersection b).Reaches dimension margin point where
  x_min := (Scalar.max_eq _ _).trans_le (max_le first.x_min second.x_min)
  x_max := (le_min first.x_max second.x_max).trans_eq (Scalar.min_eq _ _).symm
  y_min := (Scalar.max_eq _ _).trans_le (max_le first.y_min second.y_min)
  y_max := (le_min first.y_max second.y_max).trans_eq (Scalar.min_eq _ _).symm
  z_min solid :=
    (Scalar.max_eq _ _).trans_le (max_le (first.z_min solid) (second.z_min solid))
  z_max solid :=
    (le_min (first.z_max solid) (second.z_max solid)).trans_eq
      (Scalar.min_eq _ _).symm

theorem reaches_foldl_intersection (rest : List (Aabb ℝ)) (first : Aabb ℝ)
    (reaches : ∀ aabb ∈ first :: rest, aabb.Reaches dimension margin point) :
    (rest.foldl Aabb.intersection first).Reaches dimension margin point := by
  induction rest generalizing first with
  | nil => exact reaches first List.mem_cons_self
  | cons second rest induction =>
      rw [List.forall_mem_cons, List.forall_mem_cons] at reaches
      rcases reaches with ⟨one, other, others⟩
      exact induction _ (List.forall_mem_cons.mpr ⟨one.intersection other, others⟩)

/-- A box that is grown reaches as far with what is left of a margin. -/
theorem Reaches.expanded (reaches : a.Reaches dimension margin point)
    (amount : ℝ) :
    (a.expanded amount).Reaches dimension
      ⟨excess margin.x amount, excess margin.y amount, excess margin.z amount⟩
      point where
  x_min := by
    show a.min.x - amount ≤ point.x + excess margin.x amount
    linarith [reaches.x_min, le_excess margin.x amount]
  x_max := by
    show point.x - excess margin.x amount ≤ a.max.x + amount
    linarith [reaches.x_max, le_excess margin.x amount]
  y_min := by
    show a.min.y - amount ≤ point.y + excess margin.y amount
    linarith [reaches.y_min, le_excess margin.y amount]
  y_max := by
    show point.y - excess margin.y amount ≤ a.max.y + amount
    linarith [reaches.y_max, le_excess margin.y amount]
  z_min solid := by
    show a.min.z - amount ≤ point.z + excess margin.z amount
    linarith [reaches.z_min solid, le_excess margin.z amount]
  z_max solid := by
    show point.z - excess margin.z amount ≤ a.max.z + amount
    linarith [reaches.z_max solid, le_excess margin.z amount]

theorem ofCenter_zero (half : Vec3 ℝ) : ofCenter 0 half = ⟨-half, half⟩ := by
  ext
  · exact zero_sub half.x
  · exact zero_sub half.y
  · exact zero_sub half.z
  · exact zero_add half.x
  · exact zero_add half.y
  · exact zero_add half.z

/-- A number is as far beyond a symmetric interval as its absolute value. -/
theorem le_add_of_excess_le {coordinate size amount : ℝ}
    (left : excess |coordinate| size ≤ amount) :
    -size ≤ coordinate + amount ∧ coordinate - amount ≤ size := by
  rcases abs_le.mp (excess_le_iff.mp left).1 with ⟨lower, upper⟩
  constructor <;> linarith

/-- A box around the origin reaches a point with what is left of its coordinates. -/
theorem reaches_of_excess_le {half : Vec3 ℝ}
    (x : excess |point.x| half.x ≤ margin.x)
    (y : excess |point.y| half.y ≤ margin.y)
    (z : dimension = .solid → excess |point.z| half.z ≤ margin.z) :
    (⟨-half, half⟩ : Aabb ℝ).Reaches dimension margin point where
  x_min := (le_add_of_excess_le x).1
  x_max := (le_add_of_excess_le x).2
  y_min := (le_add_of_excess_le y).1
  y_max := (le_add_of_excess_le y).2
  z_min solid := (le_add_of_excess_le (z solid)).1
  z_max solid := (le_add_of_excess_le (z solid)).2

/-! ## Points within a distance -/

theorem Within.mono (within : a.Within dimension metric distance point)
    (atMost : distance ≤ farther) : a.Within dimension metric farther point := by
  rcases within with ⟨margin, admits, reaches⟩
  exact ⟨margin, admits.mono atMost, reaches⟩

theorem Within.cover (within : b.Within dimension metric distance point)
    (covers : a.Covers b) : a.Within dimension metric distance point := by
  rcases within with ⟨margin, admits, reaches⟩
  exact ⟨margin, admits, reaches.cover covers⟩

theorem Within.expanded (within : a.Within dimension metric distance point)
    (nonneg : 0 ≤ amount) :
    (a.expanded amount).Within dimension metric (excess distance amount) point := by
  rcases within with ⟨margin, admits, reaches⟩
  exact ⟨_, admits.excess nonneg, reaches.expanded amount⟩

theorem Within.of_zero (within : a.Within dimension metric 0 point)
    (other : Metric) : a.Within dimension other 0 point := by
  rcases within with ⟨margin, admits, reaches⟩
  exact ⟨margin, admits.of_zero other, reaches⟩

/-- Along the axes, the overlap of boxes is as near as the farthest of them. -/
theorem within_foldl_intersection {rest : List (Aabb ℝ)} {first : Aabb ℝ}
    (within : ∀ aabb ∈ first :: rest, aabb.Within dimension .axial distance point) :
    (rest.foldl Aabb.intersection first).Within dimension .axial distance point := by
  have nonneg : 0 ≤ distance := by
    rcases within first List.mem_cons_self with ⟨margin, admits, -⟩
    exact admits.x_nonneg.trans admits.x_le
  refine ⟨.splat distance, .axial_splat nonneg,
    reaches_foldl_intersection rest first fun aabb member => ?_⟩
  rcases within aabb member with ⟨margin, admits, reaches⟩
  exact reaches.widen admits.x_le admits.y_le admits.z_le

/-- A point within no distance lies in the box. -/
theorem Within.containsAlong (within : a.Within dimension metric 0 point) :
    a.containsAlong dimension point = true := by
  rcases within with ⟨margin, admits, reaches⟩
  have x_min : a.min.x ≤ point.x := by linarith [reaches.x_min, admits.x_le]
  have x_max : point.x ≤ a.max.x := by linarith [reaches.x_max, admits.x_le]
  have y_min : a.min.y ≤ point.y := by linarith [reaches.y_min, admits.y_le]
  have y_max : point.y ≤ a.max.y := by linarith [reaches.y_max, admits.y_le]
  cases dimension with
  | planar => simp [Aabb.containsAlong, x_min, x_max, y_min, y_max]
  | solid =>
      have z_min : a.min.z ≤ point.z := by linarith [reaches.z_min rfl, admits.z_le]
      have z_max : point.z ≤ a.max.z := by linarith [reaches.z_max rfl, admits.z_le]
      simp [Aabb.containsAlong, contains, Vec3.atMost, *]

end Aabb

end SolidField
