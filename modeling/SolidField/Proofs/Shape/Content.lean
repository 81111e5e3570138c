import SolidField.Graph.Content
import SolidField.Proofs.Shape.Building

/-!
# Contents of lowered graphs

Lowering keeps a graph well typed, whether it succeeds or not: the node that it is
given makes points, the node that it returns makes values, and every node that it
adds reads of the two what its operation is meant to read.
-/

universe u

namespace SolidField

variable {α : Type u}

/-- An operation on any number of inputs reads values only. -/
theorem Opcode.inputContent_of_associative {opcode : Opcode}
    (arity : opcode.arity = .associative) (position : Nat) :
    opcode.inputContent position = .value := by
  cases opcode <;> cases arity <;> cases position <;> rfl

namespace Graph

variable {graph larger : Graph α} {id : NodeId} {content : Content}

theorem Makes.extend (makes : graph.Makes id content)
    (extended : graph.Extends larger) : larger.Makes id content := by
  rcases makes with ⟨node, found, same⟩
  rcases extended id node found with ⟨other, otherFound, operation⟩
  refine ⟨other, otherFound, ?_⟩
  rw [(Node.eq_of_operation_eq operation).1, same]

theorem Makes.inside (makes : graph.Makes id content) : id.index < graph.size := by
  rcases makes with ⟨node, found, -⟩
  exact index_lt_of_node? found

theorem wellTyped_initial : (initial : Graph α).WellTyped := by
  rintro ⟨index⟩ node found position dependency listed
  obtain rfl : index = 0 := Nat.lt_one_iff.mp (index_lt_of_node? found)
  cases found
  cases listed

theorem Valid.makes_point (valid : graph.Valid) :
    graph.Makes Graph.point .point := by
  rcases valid.point with ⟨node, found, opcode, -⟩
  exact ⟨node, found, by rw [opcode]; rfl⟩

section Gains

variable {opcode : Opcode} {parameters : List α} {dependencies : List NodeId}
  {payload : Option (Payload α)}

theorem Gains.makes
    (gains : graph.Gains larger opcode parameters dependencies payload id) :
    larger.Makes id opcode.content := by
  rcases gains.found with ⟨node, found, operation⟩
  exact ⟨node, found, by rw [(Node.eq_of_operation_eq_make operation).1]⟩

/-- A graph stays well typed if the node that it gains reads what it should. -/
theorem Gains.wellTyped (typed : graph.WellTyped) (extended : graph.Extends larger)
    (gains : graph.Gains larger opcode parameters dependencies payload id)
    (reads : ∀ position dependency, dependencies[position]? = some dependency →
      graph.Makes dependency (opcode.inputContent position)) :
    larger.WellTyped := by
  intro other node found position dependency listed
  rcases gains.only other node found with
    ⟨former, formerFound, operation⟩ | operation
  · rcases Node.eq_of_operation_eq operation with ⟨sameOpcode, -, same, -⟩
    rw [← same] at listed
    rw [← sameOpcode]
    exact (typed other former formerFound position dependency listed).extend
      extended
  · rcases Node.eq_of_operation_eq_make operation with ⟨sameOpcode, -, same, -⟩
    rw [same] at listed
    rw [sameOpcode]
    exact (reads position dependency listed).extend extended

end Gains

variable [Scalar α]

/-- What a transform acts on is of the kind that the transform makes. -/
theorem WellTyped.makes_base {τ : Type u} (typed : graph.WellTyped)
    (merged : graph.Merged) (kind : TransformKind α τ)
    (makes : graph.Makes id kind.opcode.content) :
    graph.Makes (graph.base kind id) kind.opcode.content := by
  have same : kind.opcode.inputContent 0 = kind.opcode.content := by
    rcases kind.isTransform with isTo | isFrom
    · rw [isTo]
      rfl
    · rw [isFrom]
      rfl
  rcases makes with ⟨node, found, content⟩
  rcases merged.transform?_cases kind found with
    ⟨transform, source, opcode, -, single, remembers⟩ | ⟨-, forgets⟩
  · rw [base, remembers, ← same, ← opcode]
    exact typed id node found 0 source (by rw [single]; rfl)
  · rw [base, forgets]
    exact ⟨node, found, content⟩

end Graph

/-! ## Shapes -/

namespace Shape

open SolidField.Graph

variable [DecidableEq α] {graph : Graph α} {id : NodeId}

/-- An operation that makes a value is made of the contents that it reads. -/
theorem ensures_value {opcode : Opcode} {parameters : List α}
    {dependencies : List NodeId} (merged : graph.Merged) (typed : graph.WellTyped)
    (makes : opcode.content = .value) (notFrom : opcode ≠ .transformFrom)
    (reads : ∀ position dependency, dependencies[position]? = some dependency →
      graph.Makes dependency (opcode.inputContent position)) :
    Build.Ensures WellTyped (fun larger id => larger.Makes id .value) graph
      (Build.make opcode parameters dependencies none graph) := by
  have notTo : opcode ≠ .transformTo := by
    rintro rfl
    cases makes
  refine merged.ensures_plain typed notTo notFrom fun _ extended gains => ?_
  exact ⟨gains.wellTyped typed extended reads, makes ▸ gains.makes⟩

theorem ensures_unary {opcode : Opcode} {parameters : List α}
    (merged : graph.Merged) (typed : graph.WellTyped)
    (makes : opcode.content = .value) (notFrom : opcode ≠ .transformFrom)
    (reads : graph.Makes id (opcode.inputContent 0)) :
    Build.Ensures WellTyped (fun larger id => larger.Makes id .value) graph
      (Build.make opcode parameters [id] none graph) := by
  refine ensures_value merged typed makes notFrom fun position dependency listed => ?_
  match position with
  | 0 =>
      cases listed
      exact reads

theorem ensures_binary {opcode : Opcode} {parameters : List α} {other : NodeId}
    (merged : graph.Merged) (typed : graph.WellTyped)
    (makes : opcode.content = .value) (notFrom : opcode ≠ .transformFrom)
    (reads : graph.Makes id (opcode.inputContent 0))
    (readsOther : graph.Makes other (opcode.inputContent 1)) :
    Build.Ensures WellTyped (fun larger id => larger.Makes id .value) graph
      (Build.make opcode parameters [id, other] none graph) := by
  refine ensures_value merged typed makes notFrom fun position dependency listed => ?_
  match position with
  | 0 =>
      cases listed
      exact reads
  | 1 =>
      cases listed
      exact readsOther

theorem ensures_boolean {opcode : Opcode} {parameter : α} {ids : List NodeId}
    (merged : graph.Merged) (typed : graph.WellTyped)
    (arity : opcode.arity = .associative)
    (makes : ∀ id ∈ ids, graph.Makes id .value) :
    Build.Ensures WellTyped (fun larger id => larger.Makes id .value) graph
      (Build.combine opcode parameter ids graph) := by
  have value : opcode.content = .value := by
    revert arity
    cases opcode <;> decide
  refine merged.ensures_combine typed arity ?_ fun _ extended gains => ?_
  · rintro id rfl
    exact makes id (by simp)
  · refine ⟨gains.wellTyped typed extended fun position dependency listed => ?_,
      value ▸ gains.makes⟩
    rw [Opcode.inputContent_of_associative arity]
    exact makes dependency (List.mem_of_getElem? listed)

variable [Scalar α]

mutual

/-- Lowering a shape at a point makes a value in a well typed graph. -/
theorem ensures_lowerAt (shape : Shape α) {graph : Graph α} {id : NodeId}
    (merged : graph.Merged) (typed : graph.WellTyped)
    (makes : graph.Makes id .point) :
    Build.Ensures WellTyped (fun larger id => larger.Makes id .value) graph
      (shape.lowerAt id graph) := by
  match shape with
  | rectangle _ | circle _ | polygon _ | sphere _ | box _ | cylinder _ _ =>
      exact ensures_unary merged typed rfl nofun makes
  | extrusion profile height =>
      rw [lowerAt]
      apply (ensures_lowerAt profile merged typed makes).bind
      intro _ _ mergedLarger extended typedLarger makesProfile
      exact ensures_binary mergedLarger typedLarger rfl nofun makesProfile
        (makes.extend extended)
  | revolution profile =>
      rw [lowerAt]
      have folds : Build.Ensures WellTyped
          (fun larger id => larger.Makes id .point) graph
          (Build.make .revolutionTo [] [id] none graph) := by
        refine merged.ensures_plain typed nofun nofun fun _ extended gains => ?_
        refine ⟨gains.wellTyped typed extended fun position dependency listed => ?_,
          gains.makes⟩
        match position with
        | 0 =>
            cases listed
            exact makes
      apply folds.bind
      intro _ _ mergedFolded extendedFolded typedFolded makesFolded
      apply (ensures_lowerAt profile mergedFolded typedFolded makesFolded).bind
      intro _ _ mergedLarger extended typedLarger makesProfile
      exact ensures_binary mergedLarger typedLarger rfl nofun makesProfile
        (makes.extend (extendedFolded.trans extended))
  | union shapes radius | intersection shapes radius =>
      rw [lowerAt]
      exact (ensures_lowerAllAt shapes merged typed makes).bind
        fun mergedLarger _ typedLarger makesShapes =>
          ensures_boolean mergedLarger typedLarger rfl makesShapes
  | subtraction base tool radius =>
      rw [lowerAt]
      apply (ensures_lowerAt base merged typed makes).bind
      intro _ _ mergedBase extendedBase typedBase makesBase
      apply (ensures_lowerAt tool mergedBase typedBase
        (makes.extend extendedBase)).bind
      intro _ _ mergedLarger extended typedLarger makesTool
      exact ensures_binary mergedLarger typedLarger rfl nofun
        (makesBase.extend extended) makesTool
  | offset shape _ | shell shape _ =>
      rw [lowerAt]
      exact (ensures_lowerAt shape merged typed makes).bind
        fun mergedLarger _ typedLarger makesChild =>
          ensures_unary mergedLarger typedLarger rfl nofun makesChild
  | transformed shape transform =>
      rw [lowerAt]
      apply (merged.ensures_requireValid typed transform).bind
      rintro _ graph _ _ _ ⟨rfl, -⟩
      have moves : Build.Ensures WellTyped
          (fun larger id => larger.Makes id .point) graph
          (Build.movePoint id transform.inverse graph) := by
        have makesBase := typed.makes_base merged .point makes
        refine merged.ensures_movePoint typed makes.inside _ rfl
          (fun _ => makesBase) fun _ _ extended gains =>
            ⟨gains.wellTyped typed extended fun position _ listed => ?_,
              gains.makes⟩
        match position with
        | 0 =>
            cases listed
            exact makesBase
      apply moves.bind
      intro _ _ mergedMoved _ typedMoved makesMoved
      apply (ensures_lowerAt shape mergedMoved typedMoved makesMoved).bind
      intro _ _ mergedLarger _ typedLarger makesChild
      have makesBase := typedLarger.makes_base mergedLarger .value makesChild
      refine mergedLarger.ensures_moveValue typedLarger makesChild.inside _ rfl
        (fun _ => makesBase) fun _ _ extended gains =>
          ⟨gains.wellTyped typedLarger extended fun position _ listed => ?_,
            gains.makes⟩
      match position with
      | 0 =>
          cases listed
          exact makesBase

/-- Lowering a list of shapes at a point makes values in a well typed graph. -/
theorem ensures_lowerAllAt (shapes : List (Shape α)) {graph : Graph α} {id : NodeId}
    (merged : graph.Merged) (typed : graph.WellTyped)
    (makes : graph.Makes id .point) :
    Build.Ensures WellTyped (fun larger ids => ∀ id ∈ ids, larger.Makes id .value)
      graph (lowerAllAt id shapes graph) := by
  match shapes with
  | [] => exact .pure merged typed nofun
  | shape :: shapes =>
      rw [lowerAllAt]
      apply (ensures_lowerAt shape merged typed makes).bind
      intro _ _ mergedFirst extendedFirst typedFirst makesFirst
      apply (ensures_lowerAllAt shapes mergedFirst typedFirst
        (makes.extend extendedFirst)).bind
      intro _ _ mergedLarger extended typedLarger makesOthers
      refine .pure mergedLarger typedLarger ?_
      rw [List.forall_mem_cons]
      exact ⟨makesFirst.extend extended, makesOthers⟩

end

end Shape

namespace Graph

variable [Scalar α] [DecidableEq α]

/-- Lowering a shape makes a value in a well typed graph. -/
theorem WellTyped.ensures_lower {graph : Graph α} (typed : graph.WellTyped)
    (merged : graph.Merged) (shape : Shape α) :
    Build.Ensures WellTyped (fun larger id => larger.Makes id .value) graph
      (shape.lower graph) :=
  shape.ensures_lowerAt merged typed merged.valid.makes_point

/-- Whatever shapes are lowered, their graph is well typed. -/
theorem wellTyped_lowerAll (shapes : List (Shape α)) :
    (initial.lowerAll shapes).WellTyped := by
  have kept : ∀ graph : Graph α, graph.Merged → graph.WellTyped →
      (graph.lowerAll shapes).WellTyped := by
    intro graph merged typed
    induction shapes generalizing graph with
    | nil => exact typed
    | cons shape shapes induction =>
        have ensures := typed.ensures_lower merged shape
        exact induction _ ensures.merged ensures.kept
  exact kept initial merged_initial wellTyped_initial

end Graph

end SolidField
