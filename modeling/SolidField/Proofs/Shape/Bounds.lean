import SolidField.Proofs.Geometry.Placement
import SolidField.Proofs.Kernel.Polygon
import SolidField.Proofs.Shape.Merging
import SolidField.Program.Compile
import SolidField.Program.Machine
import SolidField.Shape.Build

/-!
# Bounding boxes of guarded shapes

Where the distance of a guarded shape is at most its reach, the box of the shape is no
farther than that distance.  This is one rule for every constructor, and by induction
the points of a shape that is guarded up to its surface lie in its box.
-/

universe u

namespace SolidField

/-! ## Booleans of many operands -/

namespace Shape

variable {radius : ℝ} {values : List (Vec4 ℝ)} {value : Vec4 ℝ}

theorem filletParameter_le (radius : ℝ) : filletParameter radius ≤ max radius 0 := by
  simp only [filletParameter, Scalar.less_iff]
  split
  · exact le_max_left _ _
  · exact le_max_of_le_right (by norm_num)

theorem min_le_of_union {a b : Vec4 ℝ}
    (computed : Kernel.evaluate? .union [filletParameter radius] a b = some value) :
    min a.w b.w ≤ max value.w (max radius 0) := by
  obtain rfl := Option.some.inj computed
  rw [Kernel.w_roundUnion]
  exact (Kernel.min_le_max_unionDistance _ _ _).trans
    (max_le_max_left _ (filletParameter_le radius))

theorem max_le_of_intersection {a b : Vec4 ℝ}
    (computed : Kernel.evaluate? .intersection [filletParameter radius] a b =
      some value) :
    max a.w b.w ≤ value.w := by
  obtain rfl := Option.some.inj computed
  rw [Kernel.w_roundIntersection]
  exact Kernel.max_le_intersectionDistance _ _ _

/-- A union is as far as one of its operands, beyond the radius of the fillet. -/
theorem exists_le_of_union
    (combined : plainCombined? .union radius values = some value) :
    ∃ operand ∈ values, operand.w ≤ max value.w (max radius 0) := by
  match values with
  | [] => cases combined
  | [single] =>
      cases combined
      exact ⟨value, List.mem_singleton_self value, le_max_left _ _⟩
  | first :: second :: rest =>
      refine Opcode.combine?_induction (motive := fun values value =>
          ∃ operand ∈ values, operand.w ≤ max value.w (max radius 0))
        (fun value => ⟨value, List.mem_singleton_self value, le_max_left _ _⟩) ?_
        (by simp) combined
      rintro values folded last value ⟨operand, member, near⟩ computed
      have joined : min folded.w last.w ≤ max value.w (max radius 0) := by
        rcases computed with computed | computed
        · exact min_le_of_union computed
        · exact (min_comm _ _).trans_le (min_le_of_union computed)
      rcases min_le_iff.mp joined with atMost | atMost
      · exact ⟨operand, List.mem_append_left _ member,
          near.trans (max_le atMost (le_max_right _ _))⟩
      · exact ⟨last, List.mem_append_right _ (List.mem_singleton_self last), atMost⟩

/-- An intersection is as far as each of its operands. -/
theorem le_of_intersection
    (combined : plainCombined? .intersection radius values = some value) :
    ∀ operand ∈ values, operand.w ≤ value.w := by
  match values with
  | [] => cases combined
  | [single] =>
      cases combined
      simp
  | first :: second :: rest =>
      refine Opcode.combine?_induction
        (motive := fun values value => ∀ operand ∈ values, operand.w ≤ value.w)
        (by simp) ?_ (by simp) combined
      intro values folded last value far computed operand member
      have both : max folded.w last.w ≤ value.w := by
        rcases computed with computed | computed
        · exact max_le_of_intersection computed
        · exact (max_comm _ _).trans_le (max_le_of_intersection computed)
      rcases List.mem_append.mp member with earlier | late
      · exact (far operand earlier).trans ((le_max_left _ _).trans both)
      · rw [List.mem_singleton.mp late]
        exact (le_max_right _ _).trans both

/-! ## Shapes in their boxes -/

/--
Every point whose distance is at most the reach is within that distance of the box of
the shape, in a metric.
-/
def Enclosed (dimension : Dimension) (metric : Metric) (reach : ℝ)
    (shape : Shape ℝ) : Prop :=
  ∀ point value, shape.plainFieldAt? (Kernel.pointValue point) = some value →
    value.w ≤ reach →
      shape.bounds.Within dimension metric (max value.w 0) point

theorem allBounds_eq (shapes : List (Shape ℝ)) : allBounds shapes = shapes.map bounds := by
  induction shapes with
  | nil => rfl
  | cons shape shapes induction => rw [allBounds, induction, List.map_cons]

/-- The values of the shapes of a list are those of its shapes, and of all of them. -/
theorem mem_of_allPlainFieldsAt? {point : Vec4 ℝ} {shapes : List (Shape ℝ)}
    (valued : allPlainFieldsAt? point shapes = some values) :
    (∀ operand ∈ values, ∃ shape ∈ shapes, shape.plainFieldAt? point = some operand) ∧
      ∀ shape ∈ shapes, ∃ operand ∈ values, shape.plainFieldAt? point = some operand := by
  induction shapes generalizing values with
  | nil =>
      cases valued
      exact ⟨nofun, nofun⟩
  | cons shape shapes induction =>
      simp only [allPlainFieldsAt?, Option.bind_eq_bind, Option.bind_eq_some_iff,
        Option.pure_def, Option.some.injEq] at valued
      rcases valued with ⟨first, found, rest, valued, rfl⟩
      rcases induction valued with ⟨ofRest, ofShapes⟩
      constructor
      · rintro operand (_ | ⟨_, member⟩)
        · exact ⟨shape, List.mem_cons_self, found⟩
        · rcases ofRest operand member with ⟨other, later, same⟩
          exact ⟨other, List.mem_cons_of_mem _ later, same⟩
      · rintro other (_ | ⟨_, member⟩)
        · exact ⟨first, List.mem_cons_self, found⟩
        · rcases ofShapes other member with ⟨operand, later, same⟩
          exact ⟨operand, List.mem_cons_of_mem _ later, same⟩

/-- The box of a union covers the boxes of its operands. -/
theorem covers_reduce_union {shape : Shape ℝ} {shapes : List (Shape ℝ)}
    (member : shape ∈ shapes) :
    (Aabb.reduce .union (allBounds shapes)).Covers shape.bounds := by
  rw [allBounds_eq]
  cases shapes with
  | nil => cases member
  | cons first rest =>
      exact Aabb.covers_foldl_union _ _ _ (List.mem_map_of_mem (f := bounds) member)

/-- Along the axes, the box of an intersection is as near as those of its operands. -/
theorem within_reduce_intersection {dimension : Dimension} {distance : ℝ}
    {point : Vec3 ℝ} {shapes : List (Shape ℝ)} (nonempty : shapes ≠ [])
    (within : ∀ shape ∈ shapes, shape.bounds.Within dimension .axial distance point) :
    (Aabb.reduce .intersection (allBounds shapes)).Within dimension .axial distance
      point := by
  rw [allBounds_eq]
  cases shapes with
  | nil => exact absurd rfl nonempty
  | cons first rest =>
      refine Aabb.within_foldl_intersection fun aabb member => ?_
      rw [← List.map_cons] at member
      rcases List.mem_map.mp member with ⟨shape, operand, rfl⟩
      exact within shape operand

section Rules

variable {dimension : Dimension} {metric other : Metric} {reach distance height : ℝ}
  {shape tool : Shape ℝ} {shapes : List (Shape ℝ)} {transform : Similarity ℝ}

theorem Enclosed.extrusion (base : Enclosed .planar metric reach shape)
    (nonneg : 0 ≤ reach) : Enclosed .solid metric reach (extrusion shape height) := by
  intro point value valued near
  simp only [plainFieldAt?, Option.bind_eq_bind, Option.bind_eq_some_iff,
    Option.pure_def, Option.some.injEq] at valued
  rcases valued with ⟨profile, valued, rfl⟩
  rw [Kernel.w_extrusion] at near ⊢
  have far := Kernel.le_max_extrusionDistance height profile.w point.z
  exact within_extrusion (base _ _ valued (far.trans (max_le near nonneg))) height

theorem Enclosed.revolution (base : Enclosed .planar metric reach shape) :
    Enclosed .solid metric reach (revolution shape) := by
  intro point value valued near
  simp only [plainFieldAt?, Option.bind_eq_bind, Option.bind_eq_some_iff,
    Option.pure_def, Option.some.injEq] at valued
  rcases valued with ⟨profile, valued, rfl⟩
  exact within_revolution (base _ profile valued near)

theorem Enclosed.union (operands : ∀ shape ∈ shapes,
      Enclosed dimension metric (max reach radius) shape)
    (nonneg : 0 ≤ reach) : Enclosed dimension metric reach (union shapes radius) := by
  intro point value valued near
  simp only [plainFieldAt?, Option.bind_eq_bind, Option.bind_eq_some_iff] at valued
  rcases valued with ⟨values, valued, combined⟩
  rcases exists_le_of_union combined with ⟨operand, member, far⟩
  rcases (mem_of_allPlainFieldsAt? valued).1 operand member with
    ⟨shape, shape_member, operand_valued⟩
  have operand_near : operand.w ≤ max reach radius :=
    far.trans (max_le (near.trans (le_max_left _ _))
      (max_le (le_max_right _ _) (nonneg.trans (le_max_left _ _))))
  have within := operands shape shape_member point operand operand_valued operand_near
  have wide := (within.cover (covers_reduce_union shape_member)).expanded
    (le_max_right radius 0)
  rw [bounds, Scalar.max_eq]
  refine wide.mono (excess_le_iff.mpr ⟨?_, le_max_right _ _⟩)
  have := le_max_left value.w 0
  have := le_max_right value.w 0
  have := le_max_right radius 0
  exact max_le (far.trans (max_le (by linarith) (by linarith))) (by linarith)

theorem Enclosed.intersection (nonempty : shapes ≠ [])
    (operands : ∀ shape ∈ shapes, Enclosed dimension .axial reach shape) :
    Enclosed dimension .axial reach (intersection shapes radius) := by
  intro point value valued near
  simp only [plainFieldAt?, Option.bind_eq_bind, Option.bind_eq_some_iff] at valued
  rcases valued with ⟨values, valued, combined⟩
  refine within_reduce_intersection nonempty fun shape member => ?_
  rcases (mem_of_allPlainFieldsAt? valued).2 shape member with
    ⟨operand, operand_member, operand_valued⟩
  have far := le_of_intersection combined operand operand_member
  exact (operands shape member point operand operand_valued (far.trans near)).mono
    (max_le_max_right 0 far)

theorem Enclosed.subtraction (kept : Enclosed dimension metric reach shape) :
    Enclosed dimension metric reach (subtraction shape tool radius) := by
  intro point value valued near
  simp only [plainFieldAt?, Option.bind_eq_bind, Option.bind_eq_some_iff,
    Option.pure_def, Option.some.injEq] at valued
  rcases valued with ⟨base, valued, other, -, rfl⟩
  have far : base.w ≤ (Kernel.roundSubtraction base other (filletParameter radius)).w := by
    rw [Kernel.roundSubtraction, Kernel.w_roundIntersection]
    exact (le_max_left _ _).trans (Kernel.max_le_intersectionDistance _ _ _)
  exact (kept point base valued (far.trans near)).mono (max_le_max_right 0 far)

theorem Enclosed.offset
    (child : Enclosed dimension metric (reach + max distance 0) shape) :
    Enclosed dimension metric reach (offset shape distance) := by
  intro point value valued near
  simp only [plainFieldAt?, Option.bind_eq_bind, Option.bind_eq_some_iff,
    Option.pure_def, Option.some.injEq] at valued
  rcases valued with ⟨inner, valued, rfl⟩
  have near : inner.w - distance ≤ reach := near
  have further := le_max_left distance 0
  have within := child point inner valued (by linarith)
  rw [bounds, Scalar.max_eq]
  refine (within.expanded (le_max_right distance 0)).mono (excess_le_iff.mpr ⟨?_, ?_⟩)
  · show max inner.w 0 ≤ max (inner.w - distance) 0 + max distance 0
    have := le_max_left (inner.w - distance) 0
    have := le_max_right (inner.w - distance) 0
    exact max_le (by linarith) (by positivity)
  · exact le_max_right _ _

theorem Enclosed.shell {thickness : ℝ} (wall : 0 ≤ thickness ∨ reach = 0)
    (child : Enclosed dimension metric (reach + max (thickness * Scalar.half) 0) shape) :
    Enclosed dimension metric reach (shell shape thickness) := by
  intro point value valued near
  simp only [plainFieldAt?, Option.bind_eq_bind, Option.bind_eq_some_iff,
    Option.pure_def, Option.some.injEq] at valued
  rcases valued with ⟨inner, valued, rfl⟩
  have near : |inner.w| - thickness * Scalar.half ≤ reach := near
  show (shape.bounds.expanded (thickness * Scalar.half)).Within dimension metric
    (max (|inner.w| - thickness * Scalar.half) 0) point
  have far := le_abs_self inner.w
  have nonneg : 0 ≤ thickness * Scalar.half := by
    rcases wall with thick | touches
    · exact mul_nonneg thick (by simp)
    · linarith [abs_nonneg inner.w]
  rw [max_eq_left nonneg] at child
  have within := child point inner valued (by linarith)
  refine (within.expanded nonneg).mono (max_le_max_right 0 ?_)
  linarith [max_le far (abs_nonneg inner.w)]

theorem Enclosed.transformed (unit : transform.rotation.IsUnit)
    (scaled : 0 < transform.scale)
    (level : dimension = .planar → transform.rotation.KeepsThirdAxis)
    (turned : other = .radial ∨ metric = .axial ∧ transform.rotation.KeepsCubes)
    (child : Enclosed dimension other (reach / transform.scale) shape) :
    Enclosed dimension metric reach (transformed shape transform) := by
  intro point value valued near
  simp only [plainFieldAt?, Option.bind_eq_bind, Option.bind_eq_some_iff,
    Option.pure_def, Option.some.injEq] at valued
  rcases valued with ⟨inner, valued, rfl⟩
  have near : inner.w * transform.scale ≤ reach := near
  have within := child _ inner valued ((le_div_iff₀ scaled).mpr near)
  refine (within.applyAabb unit scaled level turned).mono (le_of_eq ?_)
  rw [max_mul_of_nonneg _ _ scaled.le, zero_mul]
  rfl

theorem Enclosed.surface (touches : reach = 0)
    (same : Enclosed dimension other reach shape) :
    Enclosed dimension metric reach shape := by
  intro point value valued near
  have within := same point value valued near
  rw [max_eq_right (near.trans_eq touches)] at within ⊢
  exact within.of_zero metric

/-- A guarded shape is enclosed by its box. -/
theorem Guarded.enclosed (guarded : Guarded dimension metric reach shape)
    (nonneg : 0 ≤ reach) : Enclosed dimension metric reach shape := by
  induction guarded with
  | rectangle =>
      intro point value valued _
      obtain rfl := Option.some.inj valued
      exact within_rectangle _ point
  | circle size =>
      intro point value valued _
      obtain rfl := Option.some.inj valued
      exact within_circle size point
  | polygon vertices bounded =>
      intro point value valued near
      obtain rfl := Option.some.inj valued
      exact within_polygon vertices bounded near
  | sphere size =>
      intro point value valued _
      obtain rfl := Option.some.inj valued
      exact within_sphere size point
  | box =>
      intro point value valued _
      obtain rfl := Option.some.inj valued
      exact within_box _ point
  | cylinder size =>
      intro point value valued _
      obtain rfl := Option.some.inj valued
      exact within_cylinder size _ point
  | extrusion _ base => exact (base nonneg).extrusion nonneg
  | revolution _ base => exact (base nonneg).revolution
  | union _ _ operands =>
      exact .union (fun shape member => operands shape member
        (nonneg.trans (le_max_left _ _))) nonneg
  | intersection nonempty _ operands =>
      exact .intersection nonempty fun shape member => operands shape member nonneg
  | subtraction _ _ kept => exact (kept nonneg).subtraction
  | offset _ child => exact (child (add_nonneg nonneg (le_max_right _ _))).offset
  | shell wall _ child =>
      exact (child (add_nonneg nonneg (le_max_right _ _))).shell wall
  | transformed unit scaled level turned _ child =>
      exact (child (div_nonneg nonneg scaled.le)).transformed unit scaled level turned
  | surface touches _ same => exact (same nonneg).surface touches

end Rules

/-! ## Lowering -/

theorem placed_all {shapes : List (Shape ℝ)} (placed : ∀ shape ∈ shapes, shape.Placed) :
    allHaveOperands shapes = true ∧ ∀ transform ∈ allSimilarities shapes,
      transform.rotation.IsUnit ∧ 0 < transform.scale := by
  induction shapes with
  | nil => exact ⟨rfl, nofun⟩
  | cons shape shapes induction =>
      rw [List.forall_mem_cons] at placed
      have ⟨operands, similarities⟩ := induction placed.2
      rw [allHaveOperands, allSimilarities, List.forall_mem_append, placed.1.1, operands]
      exact ⟨rfl, placed.1.2, similarities⟩

/-- A guarded shape can be lowered, and its similarities can be undone. -/
theorem Guarded.placed {dimension : Dimension} {metric : Metric} {reach : ℝ}
    {shape : Shape ℝ} (guarded : Guarded dimension metric reach shape) :
    shape.Placed := by
  induction guarded with
  | rectangle | circle | polygon | sphere | box | cylinder => exact ⟨rfl, nofun⟩
  | extrusion _ placed | revolution _ placed | offset _ placed | shell _ _ placed
  | surface _ _ placed => exact placed
  | union nonempty _ placed | intersection nonempty _ placed =>
      have ⟨operands, similarities⟩ := placed_all placed
      exact ⟨by simp [hasOperands, nonempty, operands], similarities⟩
  | subtraction _ cut placed =>
      refine ⟨by simp [hasOperands, placed.1, cut.1], ?_⟩
      rw [similarities, List.forall_mem_append]
      exact ⟨placed.2, cut.2⟩
  | transformed unit scaled _ _ _ placed =>
      refine ⟨placed.1, ?_⟩
      rw [similarities, List.forall_mem_cons]
      exact ⟨⟨unit, scaled⟩, placed.2⟩

theorem isValid_of_unit {transform : Similarity ℝ} (unit : transform.rotation.IsUnit)
    (scaled : 0 < transform.scale) : transform.isValid = true := by
  rw [Rotation.IsUnit] at unit
  simp [Similarity.isValid, Rotation.isFinite, Vec3.isFinite, unit, scaled]

/--
Whatever shapes were lowered before, a guarded shape is lowered and its node has a
distance at every point.  In exact arithmetic, the points whose distance is not
positive lie in the box of the shape, along the axes of its dimension.
-/
theorem lowered_lies_in_bounds (earlier : List (Shape ℝ)) (shape : Shape ℝ)
    (guarded : Guarded shape.dimension .axial 0 shape) :
    ∃ root larger, shape.lower (Graph.initial.lowerAll earlier) = (.ok root, larger) ∧
      ∀ point, ∃ value, larger.value? point root = some value ∧
        (value.w ≤ 0 → shape.bounds.containsAlong shape.dimension point = true) := by
  have merged : (Graph.initial.lowerAll earlier).Merged := Graph.merged_lowerAll earlier
  have placed := guarded.placed
  rcases (exists_lower_iff merged shape).mpr ⟨placed.1, fun transform member =>
    isValid_of_unit (placed.2 transform member).1 (placed.2 transform member).2⟩ with
    ⟨root, larger, lowered⟩
  refine ⟨root, larger, lowered, fun point => ?_⟩
  have ⟨value, valued⟩ : ∃ value, larger.value? point root = some value := by
    have agrees := merged.agrees_lower shape point
    rw [lowered] at agrees
    generalize shape.fieldIn? _ = expected at agrees
    cases agrees with
    | ok mergedLarger _ related => exact ⟨_, related.value?_eq mergedLarger⟩
  have ensures := shape.stands_lower (fun transform member =>
    (placed.2 transform member).1) merged .standard point
  rw [lowered] at ensures
  have plain := (ensures.result root rfl).value
  rw [Graph.valueUnder?_standard, fieldUnder?_standard, valued] at plain
  refine ⟨value, valued, fun inside => ?_⟩
  have within := guarded.enclosed le_rfl point value plain.symm inside
  rw [max_eq_right inside] at within
  exact within.containsAlong

/-- A turned box with a lens, rounded off and offset. -/
noncomputable def roundedSlab : Shape ℝ :=
  .offset
    (.union
      [.transformed (.box ⟨1, Scalar.two, 1⟩)
          ⟨⟨0, 0, Scalar.ofNat 3 / Scalar.ofNat 5, Scalar.ofNat 4 / Scalar.ofNat 5⟩,
            Scalar.two, ⟨1, 0, 0⟩⟩,
        .intersection [.sphere Scalar.two, .box ⟨Scalar.two, 1, Scalar.two⟩]
          Scalar.half]
      Scalar.half)
    1

/-- Nothing turns the corners of the lens, so that the slab is guarded. -/
theorem roundedSlab_lies_in_bounds :
    Guarded roundedSlab.dimension .axial 0 roundedSlab ∧
      ∃ root larger,
        roundedSlab.lower (Graph.initial.lowerAll []) = (.ok root, larger) ∧
          ∀ point, ∃ value, larger.value? point root = some value ∧
            (value.w ≤ 0 → roundedSlab.bounds.containsAlong .solid point = true) := by
  have guarded : Guarded .solid .axial 0 roundedSlab := by
    refine .offset (.union (List.cons_ne_nil _ _) ?_)
    rw [List.forall_mem_cons, List.forall_mem_singleton]
    constructor
    · refine .transformed ?_ ?_ nofun (Or.inl rfl) .box
      · norm_num [Rotation.IsUnit, Rotation.lengthSquared]
      · norm_num
    · refine .intersection (List.cons_ne_nil _ _) ?_
      rw [List.forall_mem_cons, List.forall_mem_singleton]
      exact ⟨.sphere (by norm_num), .box⟩
  exact ⟨guarded, lowered_lies_in_bounds [] roundedSlab guarded⟩

/-- Two crossed bars of the same width, of which only the crossing is left. -/
def crossing : Shape Single :=
  .intersection
    [boxOfSize .two (.ofNat 100) .two, boxOfSize (.ofNat 100) .two .two] 0

/-- The crossing of the bars, turned and then offset by ten. -/
def turnedCrossing : Shape Single :=
  .offset (crossing.rotate ⟨0, 0, 1, .two⟩) (.ofNat 10)

/--
The distance to the crossing is that along its axes, which turn with it.  Its corners
are therefore offset by more than the distance, and leave the box by far: a point is
inside that is not even in the box grown by one on every side.
-/
theorem turnedCrossing_leaves_bounds :
    (boxOfSize .two (.ofNat 100) .two).smoothIntersection
        (boxOfSize (.ofNat 100) .two .two) 0 = .ok crossing ∧
      turnedCrossing.bounds =
        .ofCenter 0 ⟨⟨0x41366666⟩, ⟨0x41366666⟩, .ofNat 11⟩ ∧
      (turnedCrossing.bounds.expanded 1).contains ⟨.ofNat 14, .two, 0⟩ = false ∧
      ∃ program machine, turnedCrossing.compile {} = .ok program ∧
        Machine.load program = .ok machine ∧
        machine.distance ⟨.ofNat 14, .two, 0⟩ = .ok (-1) := by
  have compiles : ∃ program, turnedCrossing.compile {} = .ok program ∧
      (Machine.load program).toOption.map
          (fun machine => (machine.distance ⟨.ofNat 14, .two, 0⟩).toOption) =
        some (some (-1)) :=
    exists_eq_ok_of_map (by decide +kernel)
  rcases compiles with ⟨program, compiled, found⟩
  rcases exists_eq_ok_of_map found with ⟨machine, loaded, inside⟩
  exact ⟨rfl, by decide +kernel, by decide +kernel, program, machine, compiled, loaded,
    eq_ok_of_toOption inside⟩

end Shape

end SolidField
