import SolidField.Proofs.Shape.Building

/-!
# Transform normal form

However many shapes are lowered into one graph, and wherever they fail, nothing is
left to merge in it: every transforming node remembers the transform of its
parameters, none depends on one of its kind, and none moves nothing.  A node that is
found where one was to be made, and whose transform is read back, may come from
another shape or from one that failed, so this is a property of graphs that every
step of lowering keeps.
-/

universe u

namespace SolidField

variable {α : Type u} [Scalar α]

/-- The operation applies the transform of its parameters, which moves nothing. -/
inductive Idle : Opcode → List α → Prop where
  | point {transform : Similarity α} (same : transform.isIdentity = true) :
      Idle .transformTo transform.parameters
  | value {transform : ValueTransform α} (same : transform.isIdentity = true) :
      Idle .transformFrom transform.parameters

theorem not_idle_of_plain {opcode : Opcode} (notTo : opcode ≠ .transformTo)
    (notFrom : opcode ≠ .transformFrom) (parameters : List α) :
    ¬Idle opcode parameters := by
  intro idle
  cases idle with
  | point => exact notTo rfl
  | value => exact notFrom rfl

theorem not_idle_point {moved : Similarity α} (moves : moved.isIdentity = false) :
    ¬Idle .transformTo moved.parameters := by
  intro idle
  generalize listed : moved.parameters = parameters at idle
  cases idle with
  | point same =>
      rw [Similarity.eq_of_parameters_eq listed, same] at moves
      cases moves

theorem not_idle_value {moved : ValueTransform α} (moves : moved.isIdentity = false) :
    ¬Idle .transformFrom moved.parameters := by
  intro idle
  generalize listed : moved.parameters = parameters at idle
  cases idle with
  | value same =>
      rw [ValueTransform.eq_of_parameters_eq listed, same] at moves
      cases moves

namespace Graph

/-- No node of a graph applies a transform that moves nothing. -/
def Moving (graph : Graph α) : Prop :=
  ∀ id node, graph.node? id = some node → ¬Idle node.opcode node.parameters

/-- A graph in which transforms are remembered, merged and not without effect. -/
structure NormalForm (graph : Graph α) : Prop where
  /--
  A node that moves points remembers the similarity whose eight numbers are its
  parameters, one that moves values the rotation and scale whose five numbers are,
  and any other node nothing.
  -/
  recorded : ∀ id node, graph.node? id = some node →
    Payload.Records node.opcode node.parameters node.payload
  /-- A transform acts on a node that is there and is no transform of its kind. -/
  apart : ∀ id node, graph.node? id = some node →
    node.opcode = .transformTo ∨ node.opcode = .transformFrom →
      ∀ dependency ∈ node.dependencies, ∃ source,
        graph.node? dependency = some source ∧ source.opcode ≠ node.opcode
  moving : graph.Moving

variable {graph larger : Graph α} {id : NodeId}

theorem moving_initial : (initial : Graph α).Moving := by
  rintro ⟨index⟩ node found
  obtain rfl : index = 0 := Nat.lt_one_iff.mp (index_lt_of_node? found)
  cases found
  intro idle
  cases idle

section Gains

variable {opcode : Opcode} {parameters : List α} {dependencies : List NodeId}
  {payload : Option (Payload α)}

/-- A graph stays moving if the node that it gains is. -/
theorem Gains.moving (moving : graph.Moving)
    (gains : graph.Gains larger opcode parameters dependencies payload id)
    (moves : ¬Idle opcode parameters) : larger.Moving := by
  intro other node found
  rcases gains.only other node found with
    ⟨former, formerFound, operation⟩ | operation
  · rcases Node.eq_of_operation_eq operation with
      ⟨sameOpcode, sameParameters, -, -⟩
    rw [← sameOpcode, ← sameParameters]
    exact moving other former formerFound
  · rcases Node.eq_of_operation_eq_make operation with
      ⟨sameOpcode, sameParameters, -, -⟩
    rwa [sameOpcode, sameParameters]

end Gains

/-- A merged graph whose transforms move something is in normal form. -/
theorem Merged.normalForm (merged : graph.Merged) (moving : graph.Moving) :
    graph.NormalForm where
  recorded := merged.recorded
  apart := by
    intro id node found isTransform dependency member
    have earlier := merged.valid.earlier found dependency member
    obtain ⟨source, sourceFound⟩ :=
      exists_node?_of_lt (Nat.lt_trans earlier (index_lt_of_node? found))
    exact ⟨source, sourceFound,
      merged.apart id node found isTransform dependency member source sourceFound⟩
  moving := moving

end Graph

/-! ## Steps of lowering -/

namespace Build

open SolidField.Graph

/-- A step leaves a graph moving, and its result is a node of the graph. -/
abbrev EnsuresMoving (graph : Graph α)
    (outcome : Except (BuildError α) NodeId × Graph α) : Prop :=
  Ensures Moving (fun larger id => id.index < larger.size) graph outcome

variable [DecidableEq α] {graph : Graph α} {id : NodeId}

theorem ensuresMoving_plain (merged : graph.Merged) (moving : graph.Moving)
    {opcode : Opcode} {parameters : List α} {dependencies : List NodeId}
    (notTo : opcode ≠ .transformTo) (notFrom : opcode ≠ .transformFrom) :
    EnsuresMoving graph (make opcode parameters dependencies none graph) :=
  merged.ensures_plain moving notTo notFrom fun _ _ gains =>
    ⟨gains.moving moving (not_idle_of_plain notTo notFrom _), gains.inside⟩

theorem ensuresMoving_combine (merged : graph.Merged) (moving : graph.Moving)
    {opcode : Opcode} {parameter : α} {ids : List NodeId}
    (arity : opcode.arity = .associative)
    (inside : ∀ id ∈ ids, id.index < graph.size) :
    EnsuresMoving graph (combine opcode parameter ids graph) := by
  have notTo : opcode ≠ .transformTo := by
    rintro rfl
    cases arity
  have notFrom : opcode ≠ .transformFrom := by
    rintro rfl
    cases arity
  refine merged.ensures_combine moving arity ?_ fun _ _ gains =>
    ⟨gains.moving moving (not_idle_of_plain notTo notFrom _), gains.inside⟩
  rintro single rfl
  exact inside single List.mem_cons_self

/-- A similarity that moves nothing with the one before it makes no node. -/
theorem ensuresMoving_movePoint (merged : graph.Merged) (moving : graph.Moving)
    (inside : id.index < graph.size) (toChild : Similarity α) :
    EnsuresMoving graph (movePoint id toChild graph) := by
  rcases merged.base_spec .point inside with ⟨-, base, found, -⟩
  exact merged.ensures_movePoint moving inside toChild rfl
    (fun _ => index_lt_of_node? found) fun moves _ _ gains =>
      ⟨gains.moving moving (not_idle_point moves), gains.inside⟩

/-- A transform of values that changes nothing with the one before makes no node. -/
theorem ensuresMoving_moveValue (merged : graph.Merged) (moving : graph.Moving)
    (inside : id.index < graph.size) (toParent : ValueTransform α) :
    EnsuresMoving graph (moveValue id toParent graph) := by
  rcases merged.base_spec .value inside with ⟨-, base, found, -⟩
  exact merged.ensures_moveValue moving inside toParent rfl
    (fun _ => index_lt_of_node? found) fun moves _ _ gains =>
      ⟨gains.moving moving (not_idle_value moves), gains.inside⟩

end Build

/-! ## Shapes -/

namespace Shape

open SolidField.Build

variable [DecidableEq α]

mutual

/-- Lowering a shape at a node leaves a graph moving. -/
theorem ensuresMoving_lowerAt (shape : Shape α) {graph : Graph α} {id : NodeId}
    (merged : graph.Merged) (moving : graph.Moving)
    (inside : id.index < graph.size) :
    EnsuresMoving graph (shape.lowerAt id graph) := by
  match shape with
  | rectangle _ | circle _ | polygon _ | sphere _ | box _ | cylinder _ _ =>
      exact ensuresMoving_plain merged moving nofun nofun
  | extrusion profile _ | offset profile _ | shell profile _ =>
      rw [lowerAt]
      apply (ensuresMoving_lowerAt profile merged moving inside).bind
      intro _ _ mergedLarger _ movingLarger _
      exact ensuresMoving_plain mergedLarger movingLarger nofun nofun
  | revolution profile =>
      rw [lowerAt]
      have folds : EnsuresMoving graph (make .revolutionTo [] [id] none graph) :=
        ensuresMoving_plain merged moving nofun nofun
      apply folds.bind
      intro _ _ mergedFolded _ movingFolded insideFolded
      apply (ensuresMoving_lowerAt profile mergedFolded movingFolded
        insideFolded).bind
      intro _ _ mergedLarger _ movingLarger _
      exact ensuresMoving_plain mergedLarger movingLarger nofun nofun
  | union shapes _ | intersection shapes _ =>
      rw [lowerAt]
      apply (ensuresMoving_lowerAllAt shapes merged moving inside).bind
      intro _ _ mergedLarger _ movingLarger insideShapes
      exact ensuresMoving_combine mergedLarger movingLarger rfl insideShapes
  | subtraction base tool _ =>
      rw [lowerAt]
      apply (ensuresMoving_lowerAt base merged moving inside).bind
      intro _ _ mergedBase extendedBase movingBase _
      apply (ensuresMoving_lowerAt tool mergedBase movingBase
        (extendedBase.index_lt inside)).bind
      intro _ _ mergedLarger _ movingLarger _
      exact ensuresMoving_plain mergedLarger movingLarger nofun nofun
  | transformed shape transform =>
      rw [lowerAt]
      apply (merged.ensures_requireValid moving transform).bind
      rintro _ graph _ _ _ ⟨rfl, -⟩
      apply (ensuresMoving_movePoint merged moving inside _).bind
      intro _ _ mergedMoved _ movingMoved insideMoved
      apply (ensuresMoving_lowerAt shape mergedMoved movingMoved insideMoved).bind
      intro _ _ mergedLarger _ movingLarger insideChild
      exact ensuresMoving_moveValue mergedLarger movingLarger insideChild _

/-- Lowering a list of shapes at a node leaves a graph moving. -/
theorem ensuresMoving_lowerAllAt (shapes : List (Shape α)) {graph : Graph α}
    {id : NodeId} (merged : graph.Merged) (moving : graph.Moving)
    (inside : id.index < graph.size) :
    Ensures Graph.Moving (fun larger ids => ∀ id ∈ ids, id.index < larger.size)
      graph (lowerAllAt id shapes graph) := by
  match shapes with
  | [] => exact .pure merged moving nofun
  | shape :: shapes =>
      rw [lowerAllAt]
      apply (ensuresMoving_lowerAt shape merged moving inside).bind
      intro _ _ mergedFirst extendedFirst movingFirst insideFirst
      apply (ensuresMoving_lowerAllAt shapes mergedFirst movingFirst
        (extendedFirst.index_lt inside)).bind
      intro _ _ mergedLarger extended movingLarger insideOthers
      refine .pure mergedLarger movingLarger ?_
      rw [List.forall_mem_cons]
      exact ⟨extended.index_lt insideFirst, insideOthers⟩

end

end Shape

/-! ## Graphs of lowered shapes -/

namespace Graph

variable [DecidableEq α]

/-- Lowering a shape leaves a graph moving, also where it fails. -/
theorem Moving.lower {graph : Graph α} (moving : graph.Moving)
    (merged : graph.Merged) (shape : Shape α) : (shape.lower graph).2.Moving :=
  (shape.ensuresMoving_lowerAt merged moving merged.valid.positive).kept

theorem moving_lowerAll (shapes : List (Shape α)) :
    (initial.lowerAll shapes).Moving := by
  have kept : ∀ graph : Graph α, graph.Merged → graph.Moving →
      (graph.lowerAll shapes).Moving := by
    intro graph merged moving
    induction shapes generalizing graph with
    | nil => exact moving
    | cons shape shapes induction =>
        exact induction _ (merged.lower shape) (moving.lower merged shape)
  exact kept initial merged_initial moving_initial

/--
Whatever shapes are lowered into a graph, one after the other and whether each of
them succeeds or fails on the way, the graph is in transform normal form.
-/
theorem normalForm_lowerAll (shapes : List (Shape α)) :
    (initial.lowerAll shapes).NormalForm :=
  (merged_lowerAll shapes).normalForm (moving_lowerAll shapes)

end Graph

end SolidField
