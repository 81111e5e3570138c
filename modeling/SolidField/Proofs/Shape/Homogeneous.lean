import SolidField.Shape.Homogeneous

/-!
# Constructed shapes are homogeneous

A shape that was built by successful calls alone has one dimension throughout each of
its booleans, although only the first operand is asked for it.  A call that combines
homogeneous shapes is refused exactly where its result would not be homogeneous.
-/

universe u

namespace SolidField

variable {α : Type u}

namespace Shape

theorem firstDimension_append {shapes others : List (Shape α)}
    (nonempty : shapes ≠ []) :
    firstDimension (shapes ++ others) = firstDimension shapes := by
  cases shapes with
  | nil => exact absurd rfl nonempty
  | cons shape shapes => rfl

variable [Scalar α]

/-! ## Operands -/

theorem forall_allParts_iff {shapes : List (Shape α)} :
    (∀ part ∈ allParts shapes, part.Coherent) ↔
      ∀ shape ∈ shapes, shape.Homogeneous := by
  induction shapes with
  | nil => simp [allParts]
  | cons shape shapes induction =>
      rw [allParts, List.forall_mem_append, List.forall_mem_cons, induction]
      rfl

/-- Two or more homogeneous shapes of one dimension. -/
structure Uniform (shapes : List (Shape α)) : Prop where
  homogeneous : ∀ shape ∈ shapes, shape.Homogeneous
  many : 2 ≤ shapes.length
  same : ∀ shape ∈ shapes, shape.dimension = firstDimension shapes

variable {shapes : List (Shape α)} {base other joined shape : Shape α} {radius : α}

theorem Uniform.nonempty (uniform : Uniform shapes) : shapes ≠ [] :=
  List.ne_nil_of_length_pos (Nat.lt_of_lt_of_le Nat.two_pos uniform.many)

/-- Two or more shapes are uniform if they have the dimension of the first one. -/
theorem uniform_cons_iff (many : shapes ≠ [])
    (homogeneous : ∀ shape ∈ base :: shapes, shape.Homogeneous) :
    Uniform (base :: shapes) ↔
      ∀ shape ∈ base :: shapes, shape.dimension = base.dimension :=
  ⟨fun uniform => uniform.same, fun same =>
    ⟨homogeneous, Nat.succ_le_succ (List.length_pos_iff.mpr many), same⟩⟩

/-- A further operand has to have the dimension of the others. -/
theorem Uniform.append_iff (uniform : Uniform shapes)
    (homogeneous : other.Homogeneous) :
    Uniform (shapes ++ [other]) ↔ other.dimension = firstDimension shapes := by
  have first : firstDimension (shapes ++ [other]) = firstDimension shapes :=
    firstDimension_append uniform.nonempty
  constructor
  · intro extended
    rw [← first]
    exact extended.same other (by simp)
  · intro same
    refine ⟨?_, ?_, ?_⟩
    · rw [List.forall_mem_append, List.forall_mem_singleton]
      exact ⟨uniform.homogeneous, homogeneous⟩
    · rw [List.length_append]
      exact Nat.le_add_right_of_le uniform.many
    · rw [List.forall_mem_append, List.forall_mem_singleton, first]
      exact ⟨uniform.same, same⟩

theorem homogeneous_subtraction_iff {base tool : Shape α} {radius : α} :
    (subtraction base tool radius).Homogeneous ↔
      base.Homogeneous ∧ tool.Homogeneous ∧ tool.dimension = base.dimension := by
  rw [Homogeneous, parts, List.forall_mem_append, List.forall_mem_append,
    List.forall_mem_singleton, Coherent, dimension, and_assoc]
  simp [Homogeneous]

theorem homogeneous_extrusion_iff {profile : Shape α} {height : α} :
    (extrusion profile height).Homogeneous ↔
      profile.Homogeneous ∧ profile.dimension = .planar := by
  rw [Homogeneous, parts, List.forall_mem_append, List.forall_mem_singleton]
  rfl

theorem homogeneous_revolution_iff {profile : Shape α} :
    (revolution profile).Homogeneous ↔
      profile.Homogeneous ∧ profile.dimension = .planar := by
  rw [Homogeneous, parts, List.forall_mem_append, List.forall_mem_singleton]
  rfl

theorem homogeneous_offset_iff {child : Shape α} {distance : α} :
    (offset child distance).Homogeneous ↔ child.Homogeneous := by
  rw [Homogeneous, parts, List.forall_mem_append, List.forall_mem_singleton, Coherent,
    dimension]
  exact and_iff_left rfl

theorem homogeneous_shell_iff {child : Shape α} {thickness : α} :
    (shell child thickness).Homogeneous ↔ child.Homogeneous := by
  rw [Homogeneous, parts, List.forall_mem_append, List.forall_mem_singleton, Coherent,
    dimension]
  exact and_iff_left rfl

theorem homogeneous_transformed_iff {child : Shape α} {similarity : Similarity α} :
    (transformed child similarity).Homogeneous ↔ child.Homogeneous := by
  rw [Homogeneous, parts, List.forall_mem_cons, Coherent, dimension]
  exact and_iff_right rfl

/-- What unions and intersections have in common. -/
structure Gathers (make : List (Shape α) → α → Shape α) : Prop where
  dimension_eq : ∀ shapes radius, (make shapes radius).dimension = firstDimension shapes
  homogeneous_iff : ∀ shapes radius, (make shapes radius).Homogeneous ↔ Uniform shapes

theorem gathers_union : Gathers (union (α := α)) where
  dimension_eq _ _ := by rw [dimension]
  homogeneous_iff shapes radius := by
    rw [Homogeneous, parts, List.forall_mem_append, List.forall_mem_singleton,
      forall_allParts_iff, Coherent, dimension]
    exact ⟨fun ⟨homogeneous, many, same⟩ => ⟨homogeneous, many, same⟩,
      fun ⟨homogeneous, many, same⟩ => ⟨homogeneous, many, same⟩⟩

theorem gathers_intersection : Gathers (intersection (α := α)) where
  dimension_eq _ _ := by rw [dimension]
  homogeneous_iff shapes radius := by
    rw [Homogeneous, parts, List.forall_mem_append, List.forall_mem_singleton,
      forall_allParts_iff, Coherent, dimension]
    exact ⟨fun ⟨homogeneous, many, same⟩ => ⟨homogeneous, many, same⟩,
      fun ⟨homogeneous, many, same⟩ => ⟨homogeneous, many, same⟩⟩

/-- One more operand joins those of a boolean of its own kind, or the boolean. -/
inductive Joins (make : List (Shape α) → α → Shape α) (other : Shape α) (radius : α) :
    Shape α → Shape α → Prop
  | extend (shapes : List (Shape α)) (former : α) :
      Joins make other radius (make shapes former) (make (shapes ++ [other]) radius)
  | pair (base : Shape α) : Joins make other radius base (make [base, other] radius)

theorem joins_joinUnion (base other : Shape α) (radius : α) :
    Joins union other radius base (base.joinUnion other radius) := by
  unfold joinUnion
  split
  · split
    · exact .extend _ _
    · exact .pair _
  · exact .pair _

theorem joins_joinIntersection (base other : Shape α) (radius : α) :
    Joins intersection other radius base (base.joinIntersection other radius) := by
  unfold joinIntersection
  split
  · split
    · exact .extend _ _
    · exact .pair _
  · exact .pair _

/-- In either way the operand has to have the dimension of what it joins. -/
theorem Gathers.joined_iff {make : List (Shape α) → α → Shape α}
    (gathers : Gathers make) (joins : Joins make other radius base joined)
    (baseHomogeneous : base.Homogeneous) (homogeneous : other.Homogeneous) :
    joined.Homogeneous ↔ other.dimension = base.dimension := by
  cases joins with
  | extend shapes former =>
      have uniform := (gathers.homogeneous_iff shapes former).mp baseHomogeneous
      rw [gathers.homogeneous_iff, gathers.dimension_eq,
        uniform.append_iff homogeneous]
  | pair =>
      rw [gathers.homogeneous_iff, uniform_cons_iff (List.cons_ne_nil _ _)
        (by simp [baseHomogeneous, homogeneous])]
      simp

end Shape

/-! ## Calls that combine shapes -/

namespace Combination

open SolidField.Shape

theorem offending?_eq_none_iff {combination : Combination α} :
    combination.offending? = none ↔
      ∀ operand ∈ combination.operands, operand.dimension = combination.required := by
  simp [offending?]

/-- What is made of shapes, should it be anything, if all have a dimension. -/
def verdict (expected : Dimension) (operands : List (Shape α)) :
    Option (Shape α) → Except (BuildError α) (Shape α)
  | none => .error (.invalidShape .emptyBoolean)
  | some shape =>
      match operands.find? fun operand => operand.dimension ≠ expected with
      | some offending => .error (.dimensionMismatch expected offending.dimension)
      | none => .ok shape

theorem verdict_some (expected : Dimension) (operands : List (Shape α))
    (shape : Shape α) :
    verdict expected operands (some shape) =
      match operands.find? fun operand => operand.dimension ≠ expected with
      | some offending => .error (.dimensionMismatch expected offending.dimension)
      | none => .ok shape :=
  rfl

/-- The shapes that are required to have a dimension are the ones that may offend. -/
theorem verdict_eq (expected : Dimension) (operands : List (Shape α))
    (shape : Shape α) :
    verdict expected operands (some shape) =
      (do requireDimensions expected operands; pure shape) := by
  rw [verdict]
  induction operands with
  | nil => rfl
  | cons operand operands induction =>
      by_cases same : operand.dimension = expected
      · rw [requireDimensions, requireDimension, if_pos same,
          List.find?_cons_of_neg (by simpa using same), induction]
        rfl
      · rw [requireDimensions, requireDimension, if_neg same,
          List.find?_cons_of_pos (by simpa using same)]
        rfl

theorem requireDimensions_singleton (expected : Dimension) (operand : Shape α) :
    requireDimensions expected [operand] = requireDimension expected operand := by
  rw [requireDimensions, requireDimensions]
  cases requireDimension expected operand <;> rfl

/-- The first operand has its own dimension, so it need not be looked at. -/
theorem verdict_cons (first : Shape α) (others : List (Shape α)) (shape : Shape α) :
    verdict first.dimension (first :: others) (some shape) =
      (do requireDimensions first.dimension others; pure shape) := by
  rw [← verdict_eq, verdict, verdict, List.find?_cons_of_neg (by simp)]

section

variable [Scalar α]

/-- The result of a call is decided by the first operand that offends. -/
theorem run_eq (combination : Combination α) :
    combination.run =
      verdict combination.required combination.operands combination.form? := by
  have gathers : ∀ (make : List (Shape α) → Shape α) (shapes : List (Shape α)),
      combineAll make shapes =
        verdict (firstDimension shapes) shapes (gathered? make shapes) := by
    intro make shapes
    match shapes with
    | [] => rfl
    | [single] => exact (verdict_cons single [] single).symm
    | first :: second :: rest => exact (verdict_cons first (second :: rest) _).symm
  cases combination with
  | union base other _ | intersection base other _ | subtraction base other _ =>
      refine Eq.trans ?_ (verdict_cons base [other] _).symm
      rw [requireDimensions_singleton]
      rfl
  | unionAll shapes radius => exact gathers (Shape.union · radius) shapes
  | intersectionAll shapes radius => exact gathers (Shape.intersection · radius) shapes
  | extrusion profile _ | revolution profile =>
      refine Eq.trans ?_ (verdict_eq .planar [profile] _).symm
      rw [requireDimensions_singleton]
      rfl

/-- A call that makes nothing of its operands has none. -/
theorem form?_eq_none_iff {combination : Combination α} :
    combination.form? = none ↔ combination.operands = [] := by
  have gathered : ∀ (make : List (Shape α) → Shape α) (shapes : List (Shape α)),
      gathered? make shapes = none ↔ shapes = [] := by
    intro make shapes
    match shapes with
    | [] | [_] | _ :: _ :: _ => simp [gathered?]
  cases combination <;> simp [form?, operands, gathered]

/-- What a call makes of homogeneous shapes is homogeneous unless one of them offends. -/
theorem form?_homogeneous_iff {combination : Combination α} {shape : Shape α}
    (homogeneous : ∀ operand ∈ combination.operands, operand.Homogeneous)
    (form : combination.form? = some shape) :
    shape.Homogeneous ↔ combination.offending? = none := by
  have gathered : ∀ {make : List (Shape α) → α → Shape α} {radius : α}
      {shapes : List (Shape α)}, Gathers make →
      (∀ operand ∈ shapes, operand.Homogeneous) →
      gathered? (make · radius) shapes = some shape →
      (shape.Homogeneous ↔
        ∀ operand ∈ shapes, operand.dimension = firstDimension shapes) := by
    intro make radius shapes gathers homogeneous form
    match shapes with
    | [single] =>
        cases form
        exact iff_of_true (homogeneous shape (by simp))
          (by simp [firstDimension])
    | first :: second :: rest =>
        cases form
        rw [gathers.homogeneous_iff,
          uniform_cons_iff (List.cons_ne_nil _ _) homogeneous]
        rfl
  have joined : ∀ {make : List (Shape α) → α → Shape α} {base other : Shape α}
      {radius : α}, Gathers make → Joins make other radius base shape →
      (∀ operand ∈ [base, other], operand.Homogeneous) →
      (shape.Homogeneous ↔
        ∀ operand ∈ [base, other], operand.dimension = base.dimension) := by
    intro make base other radius gathers joins homogeneous
    rw [gathers.joined_iff joins (homogeneous base (by simp))
      (homogeneous other (by simp))]
    simp
  rw [offending?_eq_none_iff]
  cases combination with
  | union base other radius =>
      cases form
      exact joined gathers_union (joins_joinUnion base other radius) homogeneous
  | intersection base other radius =>
      cases form
      exact joined gathers_intersection (joins_joinIntersection base other radius)
        homogeneous
  | unionAll shapes radius => exact gathered gathers_union homogeneous form
  | intersectionAll shapes radius =>
      exact gathered gathers_intersection homogeneous form
  | subtraction base tool radius =>
      cases form
      obtain ⟨baseHomogeneous, toolHomogeneous⟩ :
        base.Homogeneous ∧ tool.Homogeneous := by simpa [operands] using homogeneous
      rw [homogeneous_subtraction_iff]
      simp [operands, required, firstDimension, baseHomogeneous, toolHomogeneous]
  | extrusion profile height =>
      cases form
      have profileHomogeneous : profile.Homogeneous := by
        simpa [operands] using homogeneous
      rw [homogeneous_extrusion_iff]
      simp [operands, required, profileHomogeneous]
  | revolution profile =>
      cases form
      have profileHomogeneous : profile.Homogeneous := by
        simpa [operands] using homogeneous
      rw [homogeneous_revolution_iff]
      simp [operands, required, profileHomogeneous]

/-- A call succeeds where its result is homogeneous. -/
theorem run_eq_ok_iff {combination : Combination α} {shape : Shape α}
    (homogeneous : ∀ operand ∈ combination.operands, operand.Homogeneous) :
    combination.run = .ok shape ↔
      combination.form? = some shape ∧ shape.Homogeneous := by
  rw [run_eq]
  cases form : combination.form? with
  | none => simp [verdict]
  | some made =>
      have decided := form?_homogeneous_iff homogeneous form
      rw [verdict_some, ← offending?]
      cases offending : combination.offending? with
      | none =>
          have good : made.Homogeneous := decided.mpr offending
          constructor
          · rintro ⟨⟩
            exact ⟨rfl, good⟩
          · rintro ⟨⟨⟩, -⟩
            rfl
      | some operand =>
          have bad : ¬ made.Homogeneous := by simp [decided, offending]
          constructor
          · rintro ⟨⟩
          · rintro ⟨⟨⟩, good⟩
            exact absurd good bad

/-- A call fails without operands, or where one has another dimension. -/
theorem run_eq_error_iff {combination : Combination α} {error : BuildError α}
    (homogeneous : ∀ operand ∈ combination.operands, operand.Homogeneous) :
    combination.run = .error error ↔
      (combination.operands = [] ∧ error = .invalidShape .emptyBoolean) ∨
        ∃ shape offending, combination.form? = some shape ∧ ¬ shape.Homogeneous ∧
          combination.offending? = some offending ∧
          error = .dimensionMismatch combination.required offending.dimension := by
  rw [run_eq, ← form?_eq_none_iff]
  cases form : combination.form? with
  | none => simp [verdict, eq_comm]
  | some made =>
      have decided := form?_homogeneous_iff homogeneous form
      rw [verdict_some, ← offending?]
      cases offending : combination.offending? with
      | none => simp
      | some operand => simp [decided, offending, eq_comm]

end

end Combination

namespace Shape

/-! ## Constructed shapes -/

section

variable [Scalar α]

theorem polygonOfVertices_eq_ok_iff {points : List (Vec2 α)} {shape : Shape α} :
    polygonOfVertices points = .ok shape ↔
      3 ≤ points.length ∧ (∀ point ∈ points, point.isFinite = true) ∧
        polygon points = shape := by
  rw [polygonOfVertices, ← List.all_eq_true]
  split
  next few => simp [Nat.not_le_of_lt few]
  next many =>
    rw [and_iff_right (Nat.le_of_not_lt many)]
    split
    next finite => simp [finite]
    next unbounded => simp [unbounded]

end

/-- Every successful call keeps its result homogeneous. -/
theorem Constructed.homogeneous {shape : Shape Single} (built : shape.Constructed) :
    shape.Homogeneous := by
  induction built with
  | rectangle | circle | sphere | box | cylinder =>
      exact List.forall_mem_singleton.mpr trivial
  | polygon succeeds =>
      obtain ⟨many, finite, rfl⟩ := polygonOfVertices_eq_ok_iff.mp succeeds
      exact List.forall_mem_singleton.mpr ⟨many, finite⟩
  | offset _ _ child => exact homogeneous_offset_iff.mpr child
  | shell _ _ child => exact homogeneous_shell_iff.mpr child
  | transform _ _ child | translate _ _ child | rotate _ _ child
  | rotateAxis _ _ _ child => exact homogeneous_transformed_iff.mpr child
  | scale _ succeeds child =>
      unfold scaleBy at succeeds
      split at succeeds <;> cases succeeds
      exact homogeneous_transformed_iff.mpr child
  | combine _ succeeds operands =>
      exact ((Combination.run_eq_ok_iff operands).mp succeeds).2

/--
Shapes that come from successful calls are homogeneous, so that each part has one of
the two dimensions, and a call that combines such shapes succeeds exactly where its
result is homogeneous.  It fails with the dimension of the first operand that has
another dimension than the required one, or because there are no operands.
-/
theorem constructed_homogeneous :
    (∀ shape : Shape Single, shape.Constructed → shape.Homogeneous ∧
      ∀ part ∈ shape.parts, part.dimension.axes = 2 ∨ part.dimension.axes = 3) ∧
    ∀ combination : Combination Single,
      (∀ operand ∈ combination.operands, operand.Constructed) →
      (∀ shape, combination.run = .ok shape ↔
        combination.form? = some shape ∧ shape.Homogeneous) ∧
      ∀ error, combination.run = .error error ↔
        (combination.operands = [] ∧ error = .invalidShape .emptyBoolean) ∨
          ∃ shape offending, combination.form? = some shape ∧
            ¬ shape.Homogeneous ∧ combination.offending? = some offending ∧
            error =
              .dimensionMismatch combination.required offending.dimension := by
  refine ⟨fun shape built => ⟨built.homogeneous, fun part _ => ?_⟩,
    fun combination built => ?_⟩
  · cases part.dimension with
    | planar => exact .inl rfl
    | solid => exact .inr rfl
  · have homogeneous : ∀ operand ∈ combination.operands, operand.Homogeneous :=
      fun operand mem => (built operand mem).homogeneous
    exact ⟨fun shape => Combination.run_eq_ok_iff homogeneous,
      fun error => Combination.run_eq_error_iff homogeneous⟩

/-- A disc and a ball can be built, but no union of them. -/
theorem constructed_homogeneous_mixed :
    (circle 1 : Shape Single).Constructed ∧ (sphere 1 : Shape Single).Constructed ∧
      (Combination.union (circle 1) (sphere 1) (0 : Single)).run =
        .error (.dimensionMismatch .planar .solid) := by
  have built : ∀ operand ∈
      (Combination.union (circle 1) (sphere 1) (0 : Single)).operands,
      operand.Constructed := by
    intro operand mem
    simp only [Combination.operands, List.mem_cons, List.not_mem_nil, or_false] at mem
    obtain rfl | rfl := mem
    · exact .circle 1
    · exact .sphere 1
  have offending : (Combination.union (circle 1) (sphere 1) (0 : Single)).offending? =
      some (sphere 1) := by
    rfl
  refine ⟨.circle 1, .sphere 1,
    ((constructed_homogeneous.2 _ built).2 _).mpr (.inr ⟨_, _, rfl, ?_, offending, rfl⟩)⟩
  intro good
  rw [(Combination.form?_homogeneous_iff
    (fun operand mem => (built operand mem).homogeneous) rfl).mp good] at offending
  cases offending

end Shape

end SolidField
