import SolidField.Proofs.Shape.Lowering

/-!
# What building steps ensure

Rules for statements about every outcome of a building step.  The rules follow the
steps that lowering is made of, so that a property of lowering is an induction over
the shape with one rule for each of its steps.
-/

universe u

namespace SolidField

variable {α : Type u}

namespace Build

/--
A step keeps its graph merged, only adds to it and keeps a property of it, whether
it fails or not.  If it succeeds, its result is as described.
-/
structure Ensures {β : Type} (kept : Graph α → Prop) (post : Graph α → β → Prop)
    (graph : Graph α) (outcome : Except (BuildError α) β × Graph α) : Prop where
  merged : outcome.2.Merged
  extended : graph.Extends outcome.2
  /-- The property of the graph. -/
  kept : kept outcome.2
  /-- What is known of the result, should there be one. -/
  result : ∀ result, outcome.1 = .ok result → post outcome.2 result

variable {β γ : Type} {kept : Graph α → Prop} {post postOther : Graph α → β → Prop}
  {graph : Graph α}

theorem Ensures.pure (merged : graph.Merged) (holds : kept graph) {result : β}
    (described : post graph result) :
    Ensures kept post graph ((pure result : Build α β) graph) where
  merged := merged
  extended := Graph.Extends.refl graph
  kept := holds
  result := by
    rintro other same
    cases same
    exact described

/-- A step that fails at once. -/
theorem Ensures.error (merged : graph.Merged) (holds : kept graph)
    (error : BuildError α) :
    Ensures kept post graph (.error error, graph) :=
  ⟨merged, Graph.Extends.refl graph, holds, nofun⟩

/-- After a step the next one starts from what the first one ensures. -/
theorem Ensures.bind {step : Build α β} {next : β → Build α γ}
    {postNext : Graph α → γ → Prop}
    (first : Ensures kept post graph (step graph))
    (second : ∀ {result : β} {larger : Graph α}, larger.Merged →
      graph.Extends larger → kept larger → post larger result →
        Ensures kept postNext larger (next result larger)) :
    Ensures kept postNext graph ((step >>= next) graph) := by
  rcases first with ⟨merged, extended, holds, described⟩
  rcases reached : step graph with ⟨error | result, larger⟩ <;>
    rw [reached] at merged extended holds described
  · rw [Attempt.bind_apply_error reached]
    exact ⟨merged, extended, holds, nofun⟩
  · rw [Attempt.bind_apply_ok reached]
    have further := second merged extended holds (described result rfl)
    exact ⟨further.merged, extended.trans further.extended, further.kept,
      further.result⟩

theorem Ensures.mono {outcome : Except (BuildError α) β × Graph α}
    (ensures : Ensures kept post graph outcome)
    (weaker : ∀ result, post outcome.2 result → postOther outcome.2 result) :
    Ensures kept postOther graph outcome :=
  ⟨ensures.merged, ensures.extended, ensures.kept,
    fun result same => weaker result (ensures.result result same)⟩

end Build

/-! ## Nodes that are made -/

/-- A node of an operation as it is made consists of what it was made of. -/
theorem Node.eq_of_operation_eq_make {node : Node α} {opcode : Opcode}
    {parameters : List α} {dependencies : List NodeId}
    {payload : Option (Payload α)}
    (same : node.operation = .make opcode parameters dependencies payload) :
    node.opcode = opcode ∧ node.parameters = parameters ∧
      node.dependencies = dependencies ∧ node.payload = payload := by
  cases node
  simpa [operation, make] using same

namespace Graph

/--
A graph has a node that computes what was asked for, and otherwise the nodes of a
former graph only.
-/
structure Gains (graph larger : Graph α) (opcode : Opcode) (parameters : List α)
    (dependencies : List NodeId) (payload : Option (Payload α)) (id : NodeId) :
    Prop where
  found : ∃ node, larger.node? id = some node ∧
    node.operation = .make opcode parameters dependencies payload
  only : ∀ other node, larger.node? other = some node →
    (∃ former, graph.node? other = some former ∧
      former.operation = node.operation) ∨
      node.operation = .make opcode parameters dependencies payload

variable {graph larger : Graph α} {opcode : Opcode} {parameters : List α}
  {dependencies : List NodeId} {payload : Option (Payload α)} {id : NodeId}

theorem Gains.inside
    (gains : graph.Gains larger opcode parameters dependencies payload id) :
    id.index < larger.size := by
  rcases gains.found with ⟨node, found, -⟩
  exact index_lt_of_node? found

theorem Extends.index_lt (extended : graph.Extends larger)
    (inside : id.index < graph.size) : id.index < larger.size := by
  rcases exists_node?_of_lt inside with ⟨node, found⟩
  rcases extended id node found with ⟨same, sameFound, -⟩
  exact index_lt_of_node? sameFound

/-- A node that is found in a merged graph is all that was asked for. -/
theorem Merged.gains_of_find? [DecidableEq α] (merged : graph.Merged)
    (recorded : Payload.Records opcode parameters payload)
    (found : graph.find? opcode parameters dependencies = some id) :
    graph.Gains graph opcode parameters dependencies payload id where
  found := by
    rcases exists_node?_of_find? found with
      ⟨node, nodeFound, rfl, rfl, rfl⟩
    refine ⟨node, nodeFound, ?_⟩
    rw [← (merged.recorded id node nodeFound).unique recorded]
    rfl
  only := fun _ other otherFound => Or.inl ⟨other, otherFound, rfl⟩

theorem gains_insert (graph : Graph α) (opcode : Opcode) (parameters : List α)
    (dependencies : List NodeId) (payload : Option (Payload α)) :
    graph.Gains
      (graph.insert (.make opcode parameters dependencies payload)).2
      opcode parameters dependencies payload ⟨graph.size⟩ where
  found := ⟨_, node?_insert_self graph _, rfl⟩
  only := by
    intro other node found
    rcases node?_insert_cases found with ⟨-, rfl⟩ | former
    · exact Or.inr rfl
    · exact Or.inl former

end Graph

/-! ## Transforms that are made -/

section Transforms

variable [Scalar α] {τ : Type u}

/-- The parameters of a transform determine it. -/
theorem TransformKind.eq_of_parameters_eq (kind : TransformKind α τ)
    {transform other : τ}
    (same : kind.parameters transform = kind.parameters other) :
    transform = other := by
  have records := kind.records transform
  rw [same] at records
  have payloads := records.unique (kind.records other)
  have selected := congrArg (Option.bind · kind.select) payloads
  simpa only [Option.bind_some, kind.select_payload, Option.some.injEq] using
    selected

namespace Graph

variable {graph larger : Graph α} {opcode : Opcode} {parameters : List α}
  {dependencies : List NodeId} {payload : Option (Payload α)} {id : NodeId}

/-- A node of another operation applies no transform. -/
theorem Gains.transform?_eq_none (kind : TransformKind α τ)
    (merged : larger.Merged)
    (gains : graph.Gains larger opcode parameters dependencies payload id)
    (different : opcode ≠ kind.opcode) :
    larger.transform? kind.select id = none := by
  rcases gains.found with ⟨node, found, operation⟩
  have isOpcode := (Node.eq_of_operation_eq_make operation).1
  rcases merged.transform?_cases kind found with
    ⟨-, -, isKind, -⟩ | ⟨-, forgets⟩
  · exact absurd (isOpcode.symm.trans isKind) different
  · exact forgets

/-- A node that was made for a transform applies it to its dependency. -/
theorem Gains.transform?_eq (kind : TransformKind α τ) {added : τ}
    {source : NodeId}
    (gains : graph.Gains larger kind.opcode (kind.parameters added) [source]
      payload id) (merged : larger.Merged) :
    larger.transform? kind.select id = some (added, source) := by
  rcases gains.found with ⟨node, found, operation⟩
  rcases Node.eq_of_operation_eq_make operation with
    ⟨isKind, listed, declared, -⟩
  rcases merged.transform?_cases kind found with
    ⟨transform, origin, -, others, single, remembers⟩ | ⟨different, -⟩
  · obtain rfl := kind.eq_of_parameters_eq (others.symm.trans listed)
    obtain rfl := List.singleton_inj.mp (single.symm.trans declared)
    exact remembers
  · exact absurd isKind different

/-- What a transform acts on has no transform of its kind pending. -/
theorem Merged.transform?_base (merged : graph.Merged) (kind : TransformKind α τ)
    (inside : id.index < graph.size) :
    graph.transform? kind.select (graph.base kind id) = none := by
  rcases merged.base_spec kind inside with ⟨-, node, found, different⟩
  rcases merged.transform?_cases kind found with
    ⟨-, -, isKind, -⟩ | ⟨-, forgets⟩
  · exact absurd isKind different
  · exact forgets

end Graph

end Transforms

/-! ## Rules for the steps of lowering -/

namespace Graph

variable [DecidableEq α] {graph : Graph α} {opcode : Opcode}
  {parameters : List α} {dependencies : List NodeId}
  {payload : Option (Payload α)} {kept : Graph α → Prop}
  {post : Graph α → NodeId → Prop}

/-- Asking for a node ensures what every graph that has gained the node has. -/
theorem Merged.ensures_make (merged : graph.Merged) (holds : kept graph)
    (recorded : Payload.Records opcode parameters payload)
    (apart : opcode = .transformTo ∨ opcode = .transformFrom →
      ∀ dependency ∈ dependencies, ∀ source,
        graph.node? dependency = some source → source.opcode ≠ opcode)
    (gained : ∀ {larger : Graph α} {id : NodeId}, larger.Merged →
      graph.Extends larger →
        graph.Gains larger opcode parameters dependencies payload id →
          kept larger ∧ post larger id) :
    Build.Ensures kept post graph
      (Build.make opcode parameters dependencies payload graph) := by
  rcases graph.make_cases opcode parameters dependencies payload with
    ⟨error, -, failed⟩ | ⟨id, -, found, hit⟩ | ⟨clear, -, inserted⟩
  · simp only [Build.make, failed]
    exact .error merged holds error
  · simp only [Build.make, hit]
    have mergedLarger : ({ graph with hits := graph.hits + 1 } : Graph α).Merged :=
      ⟨⟨merged.valid.point, merged.valid.admissible⟩, merged.recorded,
        merged.apart⟩
    have gains := merged.gains_of_find? recorded found
    have reached := gained mergedLarger (Extends.refl graph)
      ⟨gains.found, gains.only⟩
    refine ⟨mergedLarger, Extends.refl graph, reached.1, ?_⟩
    rintro result same
    cases same
    exact reached.2
  · simp only [Build.make, inserted]
    rcases obstacle?_eq_none_iff.mp clear with ⟨kernel, arity, accepted, inside⟩
    have admissible : (Node.make opcode parameters dependencies payload).Admissible
        graph.size := ⟨kernel, arity, accepted, inside⟩
    have mergedLarger := merged.insert admissible recorded apart
    have extended := extends_insert graph
      (.make opcode parameters dependencies payload)
    have reached := gained mergedLarger extended
      (gains_insert graph opcode parameters dependencies payload)
    refine ⟨mergedLarger, extended, reached.1, ?_⟩
    rintro result same
    cases same
    exact reached.2

/-- An operation that applies no transform needs nothing of its dependencies. -/
theorem Merged.ensures_plain (merged : graph.Merged) (holds : kept graph)
    (notTo : opcode ≠ .transformTo) (notFrom : opcode ≠ .transformFrom)
    (gained : ∀ {larger : Graph α} {id : NodeId}, larger.Merged →
      graph.Extends larger →
        graph.Gains larger opcode parameters dependencies none id →
          kept larger ∧ post larger id) :
    Build.Ensures kept post graph
      (Build.make opcode parameters dependencies none graph) :=
  merged.ensures_make holds (.plain notTo notFrom)
    (fun isTransform => absurd isTransform (by simp [notTo, notFrom])) gained

/-- A list of one node is its own combination, any other list makes a node. -/
theorem Merged.ensures_combine (merged : graph.Merged) (holds : kept graph)
    {parameter : α} {ids : List NodeId} (arity : opcode.arity = .associative)
    (single : ∀ id, ids = [id] → post graph id)
    (gained : ∀ {larger : Graph α} {id : NodeId}, larger.Merged →
      graph.Extends larger → graph.Gains larger opcode [parameter] ids none id →
        kept larger ∧ post larger id) :
    Build.Ensures kept post graph (Build.combine opcode parameter ids graph) := by
  have notTo : opcode ≠ .transformTo := by
    rintro rfl
    cases arity
  have notFrom : opcode ≠ .transformFrom := by
    rintro rfl
    cases arity
  unfold Build.combine
  split
  · exact .pure merged holds (single _ rfl)
  · exact merged.ensures_plain holds notTo notFrom gained

end Graph

namespace Graph

variable [Scalar α] {graph : Graph α} {kept : Graph α → Prop}

/-- A similarity is refused or valid; the graph stays as it is. -/
theorem Merged.ensures_requireValid (merged : graph.Merged) (holds : kept graph)
    (transform : Similarity α) :
    Build.Ensures kept
      (fun larger _ => larger = graph ∧ transform.isValid = true) graph
      (Build.requireValid transform graph) := by
  unfold Build.requireValid
  split
  · next valid => exact .pure merged holds ⟨rfl, valid⟩
  · exact .error merged holds _

variable [DecidableEq α] {post : Graph α → NodeId → Prop} {id : NodeId}
  {τ : Type u}

/--
Applying a transform to a node ensures what its base has if the transform moves
nothing, and what every graph has that has gained the transform of the base.
-/
theorem Merged.ensures_wrap (merged : graph.Merged) (holds : kept graph)
    (kind : TransformKind α τ) (inside : id.index < graph.size) (transform : τ)
    (isIdentity : Bool)
    (dropped : isIdentity = true → post graph (graph.base kind id))
    (gained : ∀ {larger : Graph α} {result : NodeId}, isIdentity = false →
      larger.Merged → graph.Extends larger →
        graph.Gains larger kind.opcode (kind.parameters transform)
          [graph.base kind id] (some (kind.payload transform)) result →
            kept larger ∧ post larger result) :
    Build.Ensures kept post graph
      (if isIdentity then
        (.ok (graph.base kind id), graph)
      else
        Build.make kind.opcode (kind.parameters transform) [graph.base kind id]
          (some (kind.payload transform)) graph) := by
  cases isIdentity with
  | true => exact .pure merged holds (dropped rfl)
  | false =>
      refine merged.ensures_make holds (kind.records transform) ?_ (gained rfl)
      intro _ dependency member source found
      rcases merged.base_spec kind inside with ⟨-, node, baseFound, different⟩
      rw [List.mem_singleton.mp member, baseFound] at found
      cases found
      exact different

/-- Moving points ensures what the move merged with the one before ensures. -/
theorem Merged.ensures_movePoint (merged : graph.Merged) (holds : kept graph)
    (inside : id.index < graph.size) (toChild : Similarity α)
    {moved : Similarity α}
    (isMoved : ((graph.transform? Payload.point? id).map Prod.fst).elim toChild
      toChild.after = moved)
    (dropped : moved.isIdentity = true → post graph (graph.base .point id))
    (gained : ∀ {larger : Graph α} {result : NodeId}, moved.isIdentity = false →
      larger.Merged → graph.Extends larger →
        graph.Gains larger .transformTo moved.parameters [graph.base .point id]
          (some (.point moved)) result → kept larger ∧ post larger result) :
    Build.Ensures kept post graph (Build.movePoint id toChild graph) := by
  rw [movePoint_eq, isMoved]
  exact merged.ensures_wrap holds .point inside moved _ dropped gained

/-- Moving values back ensures what the move merged with the one before ensures. -/
theorem Merged.ensures_moveValue (merged : graph.Merged) (holds : kept graph)
    (inside : id.index < graph.size) (toParent : ValueTransform α)
    {moved : ValueTransform α}
    (isMoved : ((graph.transform? Payload.value? id).map Prod.fst).elim toParent
      toParent.after = moved)
    (dropped : moved.isIdentity = true → post graph (graph.base .value id))
    (gained : ∀ {larger : Graph α} {result : NodeId}, moved.isIdentity = false →
      larger.Merged → graph.Extends larger →
        graph.Gains larger .transformFrom moved.parameters [graph.base .value id]
          (some (.value moved.rotation moved.scale)) result →
            kept larger ∧ post larger result) :
    Build.Ensures kept post graph (Build.moveValue id toParent graph) := by
  rw [moveValue_eq, isMoved]
  exact merged.ensures_wrap holds .value inside moved _ dropped gained

end Graph

/-- That a shape is lowered is seen from its node alone. -/
theorem Shape.lower_eq_ok [Scalar α] [DecidableEq α] {graph : Graph α}
    {shape : Shape α} {id : NodeId}
    (found : (shape.lower graph).1.toOption = some id) :
    shape.lower graph = (.ok id, (shape.lower graph).2) :=
  Prod.ext (eq_ok_of_toOption found) rfl

end SolidField
