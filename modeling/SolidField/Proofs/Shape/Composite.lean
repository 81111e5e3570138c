import Mathlib.Data.List.Forall2
import SolidField.Shape.Build
import SolidField.Shape.Composite
import SolidField.Proofs.Shape.Building

/-!
# Transforms of lowered graphs

Lowering a shape adds exactly the composite transforms that its tree spells out.
They are within bounds whenever the shape says so, which is more than every
similarity of the shape being valid: a valid similarity can have an inverse, and
two valid ones a composite, whose scale or translation is beyond all numbers.
-/

universe u

namespace SolidField

variable {α : Type u} [Scalar α]

namespace Graph

variable {graph larger largest : Graph α} {id : NodeId} {τ : Type u}

/-- Some node of a graph applies a transform. -/
def Applies (graph : Graph α) (kind : TransformKind α τ) (transform : τ) : Prop :=
  ∃ id node, graph.node? id = some node ∧ node.opcode = kind.opcode ∧
    node.parameters = kind.parameters transform

/-- The transforms of a graph are those of a former graph and listed ones. -/
structure AddsTransforms (graph larger : Graph α) (points : List (Similarity α))
    (values : List (ValueTransform α)) : Prop where
  points : ∀ transform, larger.Applies .point transform ↔
    graph.Applies .point transform ∨ transform ∈ points
  values : ∀ transform, larger.Applies .value transform ↔
    graph.Applies .value transform ∨ transform ∈ values

theorem AddsTransforms.refl (graph : Graph α) :
    graph.AddsTransforms graph [] [] := by
  constructor <;> simp

theorem AddsTransforms.trans {points morePoints : List (Similarity α)}
    {values moreValues : List (ValueTransform α)}
    (first : graph.AddsTransforms larger points values)
    (second : larger.AddsTransforms largest morePoints moreValues) :
    graph.AddsTransforms largest (points ++ morePoints) (values ++ moreValues) where
  points := by
    intro transform
    rw [second.points, first.points, List.mem_append, or_assoc]
  values := by
    intro transform
    rw [second.values, first.values, List.mem_append, or_assoc]

section Gains

variable {opcode : Opcode} {parameters : List α} {dependencies : List NodeId}
  {payload : Option (Payload α)}

/-- A node of another operation adds no transform. -/
theorem Gains.applies_iff (kind : TransformKind α τ)
    (extended : graph.Extends larger)
    (gains : graph.Gains larger opcode parameters dependencies payload id)
    (different : opcode ≠ kind.opcode) (transform : τ) :
    larger.Applies kind transform ↔ graph.Applies kind transform := by
  constructor
  · rintro ⟨other, node, found, isKind, listed⟩
    rcases gains.only other node found with
      ⟨former, formerFound, operation⟩ | operation
    · rcases Node.eq_of_operation_eq operation with ⟨sameOpcode, same, -, -⟩
      exact ⟨other, former, formerFound, sameOpcode.trans isKind,
        same.trans listed⟩
    · exact absurd ((Node.eq_of_operation_eq_make operation).1.symm.trans isKind)
        different
  · rintro ⟨other, node, found, isKind, listed⟩
    rcases extended other node found with ⟨same, sameFound, operation⟩
    rcases Node.eq_of_operation_eq operation with ⟨sameOpcode, sameListed, -, -⟩
    exact ⟨other, same, sameFound, sameOpcode.trans isKind,
      sameListed.trans listed⟩

/-- A node that applies a transform adds just this one. -/
theorem Gains.applies_iff_of_kind (kind : TransformKind α τ)
    (extended : graph.Extends larger) {added : τ}
    (gains : graph.Gains larger kind.opcode (kind.parameters added) dependencies
      payload id) (transform : τ) :
    larger.Applies kind transform ↔
      graph.Applies kind transform ∨ transform = added := by
  constructor
  · rintro ⟨other, node, found, isKind, listed⟩
    rcases gains.only other node found with
      ⟨former, formerFound, operation⟩ | operation
    · rcases Node.eq_of_operation_eq operation with ⟨sameOpcode, same, -, -⟩
      exact Or.inl ⟨other, former, formerFound, sameOpcode.trans isKind,
        same.trans listed⟩
    · have same := (Node.eq_of_operation_eq_make operation).2.1
      exact Or.inr (kind.eq_of_parameters_eq (listed.symm.trans same))
  · rintro (⟨other, node, found, isKind, listed⟩ | rfl)
    · rcases extended other node found with ⟨same, sameFound, operation⟩
      rcases Node.eq_of_operation_eq operation with
        ⟨sameOpcode, sameListed, -, -⟩
      exact ⟨other, same, sameFound, sameOpcode.trans isKind,
        sameListed.trans listed⟩
    · rcases gains.found with ⟨node, found, operation⟩
      rcases Node.eq_of_operation_eq_make operation with ⟨isKind, listed, -, -⟩
      exact ⟨id, node, found, isKind, listed⟩

/-- A node that applies no transform adds none, and nothing is pending at it. -/
theorem Gains.addsTransforms (extended : graph.Extends larger)
    (gains : graph.Gains larger opcode parameters dependencies payload id)
    (notTo : opcode ≠ .transformTo) (notFrom : opcode ≠ .transformFrom) :
    graph.AddsTransforms larger [] [] where
  points := by
    intro transform
    rw [gains.applies_iff .point extended notTo]
    simp
  values := by
    intro transform
    rw [gains.applies_iff .value extended notFrom]
    simp

end Gains

/-- The graph of the evaluation point transforms nothing. -/
theorem transformsBounded_initial : (initial : Graph α).TransformsBounded := by
  rintro ⟨index⟩ node found isTransform
  obtain rfl : index = 0 := Nat.lt_one_iff.mp (index_lt_of_node? found)
  cases found
  rcases isTransform with isTo | isFrom
  · cases isTo
  · cases isFrom

/-- A graph transforms within bounds if all transforms that it applies are. -/
theorem Merged.transformsBounded_iff (merged : graph.Merged) :
    graph.TransformsBounded ↔
      (∀ transform, graph.Applies .point transform →
        boundedTransform transform.parameters = true) ∧
      ∀ transform, graph.Applies .value transform →
        boundedTransform transform.parameters = true := by
  constructor
  · intro bounded
    constructor
    · rintro transform ⟨id, node, found, isTo, listed⟩
      have within := bounded id node found (Or.inl isTo)
      rwa [listed] at within
    · rintro transform ⟨id, node, found, isFrom, listed⟩
      have within := bounded id node found (Or.inr isFrom)
      rwa [listed] at within
  · rintro ⟨points, values⟩ id node found (isTo | isFrom)
    · rcases merged.transform?_cases .point found with
        ⟨transform, -, -, listed, -⟩ | ⟨different, -⟩
      · rw [listed]
        exact points transform ⟨id, node, found, isTo, listed⟩
      · exact absurd isTo different
    · rcases merged.transform?_cases .value found with
        ⟨transform, -, -, listed, -⟩ | ⟨different, -⟩
      · rw [listed]
        exact values transform ⟨id, node, found, isFrom, listed⟩
      · exact absurd isFrom different

end Graph

/-! ## Shapes -/

namespace Shape

open SolidField.Graph

/-- A graph adds listed transforms to a former one and leaves one pending at a node. -/
structure Composes (graph : Graph α) (points : List (Similarity α))
    (values : List (ValueTransform α)) (pending : Option (ValueTransform α))
    (larger : Graph α) (id : NodeId) : Prop where
  adds : graph.AddsTransforms larger points values
  inside : id.index < larger.size
  pending : (larger.transform? Payload.value? id).map Prod.fst = pending

/-- A graph has a node for every shape of a list, with its transform pending. -/
def HasPending (graph : Graph α) : List NodeId → List (Shape α) → Prop :=
  List.Forall₂ fun id shape => id.index < graph.size ∧
    (graph.transform? Payload.value? id).map Prod.fst = shape.pendingValue

variable {graph larger : Graph α} {points morePoints : List (Similarity α)}
  {values moreValues : List (ValueTransform α)}
  {pending : Option (ValueTransform α)} {id : NodeId}

theorem Composes.trans (adds : graph.AddsTransforms larger points values)
    {largest : Graph α}
    (composes : Composes larger morePoints moreValues pending largest id) :
    Composes graph (points ++ morePoints) (values ++ moreValues) pending largest
      id :=
  ⟨adds.trans composes.adds, composes.inside, composes.pending⟩

/-- What is behind the last transforms adds nothing to them. -/
theorem Composes.closed (adds : graph.AddsTransforms larger points values)
    {largest : Graph α} (composes : Composes larger [] [] pending largest id) :
    Composes graph points values pending largest id := by
  have whole := Composes.trans adds composes
  rwa [List.append_nil, List.append_nil] at whole

variable [DecidableEq α] {opcode : Opcode} {parameters : List α}
  {dependencies : List NodeId}

/-- An operation that is no transform adds none and leaves none pending. -/
theorem ensures_composes_plain (merged : graph.Merged)
    (notTo : opcode ≠ .transformTo) (notFrom : opcode ≠ .transformFrom) :
    Build.Ensures (fun _ => True) (Composes graph [] [] none) graph
      (Build.make opcode parameters dependencies none graph) := by
  refine merged.ensures_plain trivial notTo notFrom
    fun mergedLarger extended gains => ⟨trivial, ?_⟩
  have forgets := gains.transform?_eq_none .value mergedLarger notFrom
  exact ⟨gains.addsTransforms extended notTo notFrom, gains.inside,
    congrArg (Option.map Prod.fst) forgets⟩

/-- A plain operation behind a step closes what the step has added. -/
theorem ensures_composes_behind (merged : larger.Merged)
    (adds : graph.AddsTransforms larger points values)
    (notTo : opcode ≠ .transformTo) (notFrom : opcode ≠ .transformFrom) :
    Build.Ensures (fun _ => True) (Composes graph points values none) larger
      (Build.make opcode parameters dependencies none larger) :=
  (ensures_composes_plain merged notTo notFrom).mono
    fun _ composes => composes.closed adds

/-- A boolean of a single shape keeps what is pending for it. -/
theorem ensures_composes_combine {parameter : α} {ids : List NodeId}
    {shapes : List (Shape α)} (merged : larger.Merged)
    (adds : graph.AddsTransforms larger points values)
    (arity : opcode.arity = .associative) (has : HasPending larger ids shapes) :
    Build.Ensures (fun _ => True)
      (Composes graph points values (pendingOfSingle shapes)) larger
      (Build.combine opcode parameter ids larger) := by
  have notTo : opcode ≠ .transformTo := by
    rintro rfl
    cases arity
  have notFrom : opcode ≠ .transformFrom := by
    rintro rfl
    cases arity
  cases has with
  | nil => exact ensures_composes_behind merged adds notTo notFrom
  | cons first others =>
      cases others with
      | nil =>
          exact .pure merged trivial ⟨adds, first.1, first.2⟩
      | cons second others =>
          exact ensures_composes_behind merged adds notTo notFrom

/-- Moving a point adds what the move merges to, and leaves this pending. -/
theorem ensures_movePoint (merged : graph.Merged) (inside : id.index < graph.size)
    {pending : Option (Similarity α)}
    (remembered : (graph.transform? Payload.point? id).map Prod.fst = pending)
    (toChild : Similarity α) :
    Build.Ensures (fun _ => True)
      (fun larger moved =>
        graph.AddsTransforms larger (toChild.following pending).toList [] ∧
          moved.index < larger.size ∧
          (larger.transform? Payload.point? moved).map Prod.fst =
            toChild.following pending)
      graph (Build.movePoint id toChild graph) := by
  refine merged.ensures_movePoint trivial inside toChild
    (congrArg (Option.elim · toChild toChild.after) remembered) ?_ ?_
  · intro isIdentity
    rw [Similarity.following, if_pos isIdentity]
    have forgets := merged.transform?_base .point inside
    exact ⟨.refl graph, (merged.base_spec .point inside).1,
      congrArg (Option.map Prod.fst) forgets⟩
  · intro larger result moves mergedLarger extended gains
    refine ⟨trivial, ?_⟩
    have moved : toChild.following pending =
        some (pending.elim toChild toChild.after) := by
      rw [Similarity.following, moves]
      rfl
    rw [moved]
    refine ⟨⟨fun transform => ?_, fun transform => ?_⟩, gains.inside,
      congrArg (Option.map Prod.fst) (gains.transform?_eq .point mergedLarger)⟩
    · rw [gains.applies_iff_of_kind .point extended]
      simp
    · rw [gains.applies_iff .value extended nofun]
      simp

/-- Moving a value back adds what the move merges to, and leaves this pending. -/
theorem ensures_moveValue (merged : graph.Merged) (inside : id.index < graph.size)
    {pending : Option (ValueTransform α)}
    (remembered : (graph.transform? Payload.value? id).map Prod.fst = pending)
    (toParent : ValueTransform α) :
    Build.Ensures (fun _ => True)
      (Composes graph [] (toParent.following pending).toList
        (toParent.following pending))
      graph (Build.moveValue id toParent graph) := by
  refine merged.ensures_moveValue trivial inside toParent
    (congrArg (Option.elim · toParent toParent.after) remembered) ?_ ?_
  · intro isIdentity
    rw [ValueTransform.following, if_pos isIdentity]
    have forgets := merged.transform?_base .value inside
    exact ⟨.refl graph, (merged.base_spec .value inside).1,
      congrArg (Option.map Prod.fst) forgets⟩
  · intro larger result moves mergedLarger extended gains
    refine ⟨trivial, ?_⟩
    have moved : toParent.following pending =
        some (pending.elim toParent toParent.after) := by
      rw [ValueTransform.following, moves]
      rfl
    rw [moved]
    refine ⟨⟨fun transform => ?_, fun transform => ?_⟩, gains.inside,
      congrArg (Option.map Prod.fst) (gains.transform?_eq .value mergedLarger)⟩
    · rw [gains.applies_iff .point extended nofun]
      simp
    · rw [gains.applies_iff_of_kind .value extended]
      simp

mutual

/-- Lowering a shape at a point adds the transforms that its tree spells out. -/
theorem ensures_composes (shape : Shape α) {graph : Graph α} {id : NodeId}
    {pending : Option (Similarity α)} (merged : graph.Merged)
    (inside : id.index < graph.size)
    (remembered : (graph.transform? Payload.point? id).map Prod.fst = pending) :
    Build.Ensures (fun _ => True)
      (Composes graph (shape.pointTransforms pending) shape.valueTransforms
        shape.pendingValue)
      graph (shape.lowerAt id graph) := by
  match shape with
  | rectangle _ | circle _ | polygon _ | sphere _ | box _ | cylinder _ _ =>
      exact ensures_composes_plain merged nofun nofun
  | extrusion profile _ =>
      rw [lowerAt]
      exact (ensures_composes profile merged inside remembered).bind
        fun mergedLarger _ _ composes =>
          ensures_composes_behind mergedLarger composes.adds nofun nofun
  | offset shape _ | shell shape _ =>
      rw [lowerAt]
      exact (ensures_composes shape merged inside remembered).bind
        fun mergedLarger _ _ composes =>
          ensures_composes_behind mergedLarger composes.adds nofun nofun
  | revolution profile =>
      rw [lowerAt]
      have folds : Build.Ensures (fun _ => True)
          (fun larger folded => graph.AddsTransforms larger [] [] ∧
            folded.index < larger.size ∧
            (larger.transform? Payload.point? folded).map Prod.fst = none)
          graph (Build.make .revolutionTo [] [id] none graph) := by
        refine merged.ensures_plain trivial nofun nofun
          fun mergedFolded extended gains => ⟨trivial, ?_, gains.inside, ?_⟩
        · exact gains.addsTransforms extended nofun nofun
        · exact congrArg (Option.map Prod.fst)
            (gains.transform?_eq_none .point mergedFolded nofun)
      apply folds.bind
      intro _ _ mergedFolded _ _ folded
      apply (ensures_composes profile mergedFolded folded.2.1 folded.2.2).bind
      intro _ _ mergedLarger _ _ composes
      exact ensures_composes_behind mergedLarger (folded.1.trans composes.adds)
        nofun nofun
  | union shapes _ | intersection shapes _ =>
      rw [lowerAt]
      exact (ensures_composes_all shapes merged inside remembered).bind
        fun mergedLarger _ _ composes =>
          ensures_composes_combine mergedLarger composes.1 rfl composes.2
  | subtraction base tool _ =>
      rw [lowerAt]
      apply (ensures_composes base merged inside remembered).bind
      intro _ _ mergedBase extendedBase _ composesBase
      have stillInside := extendedBase.index_lt inside
      have stillRemembered :=
        extendedBase.transform?_eq Payload.point? inside ▸ remembered
      apply (ensures_composes tool mergedBase stillInside stillRemembered).bind
      intro _ _ mergedLarger _ _ composesTool
      exact ensures_composes_behind mergedLarger
        (composesBase.adds.trans composesTool.adds) nofun nofun
  | transformed shape transform =>
      rw [lowerAt]
      apply (merged.ensures_requireValid trivial transform).bind
      rintro _ _ _ _ _ ⟨rfl, -⟩
      apply (ensures_movePoint merged inside remembered transform.inverse).bind
      intro _ _ mergedMoved _ _ moved
      apply (ensures_composes shape mergedMoved moved.2.1 moved.2.2).bind
      intro _ _ mergedLarger _ _ composes
      refine (ensures_moveValue mergedLarger composes.inside composes.pending
        (.ofSimilarity transform)).mono fun _ back => ?_
      have whole := Composes.trans (moved.1.trans composes.adds) back
      rwa [List.append_nil, List.nil_append] at whole

/-- Lowering a list of shapes adds the transforms of all of them. -/
theorem ensures_composes_all (shapes : List (Shape α)) {graph : Graph α}
    {id : NodeId} {pending : Option (Similarity α)} (merged : graph.Merged)
    (inside : id.index < graph.size)
    (remembered : (graph.transform? Payload.point? id).map Prod.fst = pending) :
    Build.Ensures (fun _ => True)
      (fun larger ids =>
        graph.AddsTransforms larger (allPointTransforms pending shapes)
            (allValueTransforms shapes) ∧
          HasPending larger ids shapes)
      graph (lowerAllAt id shapes graph) := by
  match shapes with
  | [] => exact .pure merged trivial ⟨.refl graph, .nil⟩
  | shape :: shapes =>
      rw [lowerAllAt]
      apply (ensures_composes shape merged inside remembered).bind
      intro _ _ mergedFirst extendedFirst _ composes
      have stillInside := extendedFirst.index_lt inside
      have stillRemembered :=
        extendedFirst.transform?_eq Payload.point? inside ▸ remembered
      apply (ensures_composes_all shapes mergedFirst stillInside
        stillRemembered).bind
      intro _ _ mergedLarger extended _ others
      refine .pure mergedLarger trivial
        ⟨composes.adds.trans others.1, .cons ⟨extended.index_lt composes.inside, ?_⟩
          others.2⟩
      rw [extended.transform?_eq Payload.value? composes.inside]
      exact composes.pending

end

/--
Whatever shapes were lowered before, lowering a shape leaves transforms within bounds
if and only if they were within bounds before and the composites of the shape are.
-/
theorem lowered_transformsBounded_iff (earlier : List (Shape α)) (shape : Shape α)
    {root : NodeId} {larger : Graph α}
    (lowered : shape.lower (Graph.initial.lowerAll earlier) = (.ok root, larger)) :
    larger.TransformsBounded ↔
      (Graph.initial.lowerAll earlier).TransformsBounded ∧
        shape.CompositesBounded := by
  have merged := Graph.merged_lowerAll earlier
  have nothing : ((Graph.initial.lowerAll earlier).transform? Payload.point?
      Graph.point).map Prod.fst = none := by
    rcases merged.valid.point with ⟨node, found, -, none⟩
    rw [transform?_eq_none found (Or.inr none)]
    rfl
  have ensures := shape.ensures_composes merged merged.valid.positive nothing
  change Build.Ensures _ _ _ (shape.lower _) at ensures
  rw [lowered] at ensures
  have adds := (ensures.result root rfl).adds
  rw [ensures.merged.transformsBounded_iff, merged.transformsBounded_iff]
  simp only [adds.points, adds.values, or_imp, forall_and, CompositesBounded]
  exact and_and_and_comm

/-- A sphere, first made twice as large, then moved. -/
def movedSphere : Shape Single :=
  .transformed (.transformed (.sphere 1) (.ofScale .two))
    (.ofTranslation ⟨1, 0, .half⟩)

/-- The composites of the moved sphere are within bounds, and so is its graph. -/
theorem movedSphere_transformsBounded :
    let larger := (movedSphere.lower (Graph.initial.lowerAll [])).2
    movedSphere.CompositesBounded ∧ larger.TransformsBounded := by
  have composites : movedSphere.CompositesBounded := by decide +kernel
  have found : (movedSphere.lower (Graph.initial.lowerAll [])).1.toOption =
      some ⟨4⟩ := by
    decide +kernel
  exact ⟨composites, (lowered_transformsBounded_iff [] movedSphere
    (lower_eq_ok found)).mpr ⟨transformsBounded_initial, composites⟩⟩

/-- A sphere scaled by a subnormal factor, the single nearest to `1e-39`. -/
def vanishingSphere : Shape Single :=
  .transformed (.sphere 1) (.ofScale ⟨0x000ae398⟩)

/--
The factor is accepted and the shape is lowered, but its inverse is infinite: the
node that moves the point has an infinite scale and an undefined translation.
-/
theorem vanishingSphere_not_transformsBounded :
    ((sphere 1).scaleBy ⟨0x000ae398⟩ : Except (BuildError Single) (Shape Single)) =
        .ok vanishingSphere ∧
      (vanishingSphere.lower Graph.initial).1.toOption = some ⟨3⟩ ∧
      ¬ (vanishingSphere.lower Graph.initial).2.TransformsBounded := by
  refine ⟨rfl, by decide +kernel, fun bounded => ?_⟩
  have moves : ((vanishingSphere.lower Graph.initial).2.node? ⟨1⟩).map
      (fun node => (node.opcode, boundedTransform node.parameters)) =
        some (.transformTo, false) := by
    decide +kernel
  rcases Option.map_eq_some_iff.mp moves with ⟨node, found, seen⟩
  rw [Prod.mk.injEq] at seen
  have within := bounded ⟨1⟩ node found (Or.inl seen.1)
  rw [seen.2] at within
  cases within

end Shape

end SolidField
