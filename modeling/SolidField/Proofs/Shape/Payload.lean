import SolidField.Shape.Field
import SolidField.Proofs.Graph.Evaluation

/-!
# Payloads of lowered graphs

What a node remembers is determined by its operation and parameters, and a
transform never depends on one of its kind.  A graph with this property has
nothing left to merge, and a node that is found in it remembers what the node
that was asked for would have remembered.
-/

universe u v

namespace SolidField

variable {α : Type u}

theorem Similarity.eq_of_parameters_eq {transform other : Similarity α}
    (same : transform.parameters = other.parameters) : transform = other := by
  rcases transform with ⟨⟨_, _, _, _⟩, _, ⟨_, _, _⟩⟩
  rcases other with ⟨⟨_, _, _, _⟩, _, ⟨_, _, _⟩⟩
  simp_all [parameters]

theorem ValueTransform.eq_of_parameters_eq {transform other : ValueTransform α}
    (same : transform.parameters = other.parameters) : transform = other := by
  rcases transform with ⟨⟨_, _, _, _⟩, _⟩
  rcases other with ⟨⟨_, _, _, _⟩, _⟩
  simp_all [parameters]

namespace Payload

/-- What a node remembers is the transform that its parameters spell out. -/
inductive Records (opcode : Opcode) (parameters : List α) :
    Option (Payload α) → Prop where
  /-- A node that moves points remembers the similarity. -/
  | point {transform : Similarity α} (isTo : opcode = .transformTo)
      (listed : parameters = transform.parameters) :
      Records opcode parameters (some (.point transform))
  /-- A node that moves values remembers the rotation and the scale. -/
  | value {transform : ValueTransform α} (isFrom : opcode = .transformFrom)
      (listed : parameters = transform.parameters) :
      Records opcode parameters
        (some (.value transform.rotation transform.scale))
  /-- Any other node remembers nothing. -/
  | plain (notTo : opcode ≠ .transformTo) (notFrom : opcode ≠ .transformFrom) :
      Records opcode parameters none

variable {opcode : Opcode} {parameters : List α}

/-- A node has nothing to choose about what it remembers. -/
theorem Records.unique {payload other : Option (Payload α)}
    (records : Records opcode parameters payload)
    (otherRecords : Records opcode parameters other) : payload = other := by
  cases records with
  | point isTo listed =>
      subst isTo
      cases otherRecords with
      | point _ otherListed =>
          rw [Similarity.eq_of_parameters_eq (listed.symm.trans otherListed)]
      | value isFrom => cases isFrom
      | plain notTo => exact absurd rfl notTo
  | value isFrom listed =>
      subst isFrom
      cases otherRecords with
      | point isTo => cases isTo
      | value _ otherListed =>
          rw [ValueTransform.eq_of_parameters_eq
            (listed.symm.trans otherListed)]
      | plain _ notFrom => exact absurd rfl notFrom
  | plain notTo notFrom =>
      cases otherRecords with
      | point isTo => exact absurd isTo notTo
      | value isFrom => exact absurd isFrom notFrom
      | plain => rfl

end Payload

namespace Graph

/-! ## Remembered transforms -/

section Transforms

variable {graph larger : Graph α} {id : NodeId} {node : Node α} {τ : Type u}

theorem transform?_of_node? {select : Payload α → Option τ}
    {payload : Payload α} {source : NodeId} {others : List NodeId}
    (found : graph.node? id = some node) (recorded : node.payload = some payload)
    (listed : node.dependencies = source :: others) :
    graph.transform? select id =
      (select payload).map fun transform => (transform, source) := by
  rcases node with
    ⟨opcode, parameters, dependencies, remembered, consumers, register⟩
  simp only at recorded listed
  subst recorded listed
  simp only [transform?, found]

theorem transform?_eq_none {select : Payload α → Option τ}
    (found : graph.node? id = some node)
    (forgotten : node.payload = none ∨ node.dependencies = []) :
    graph.transform? select id = none := by
  rcases node with
    ⟨opcode, parameters, dependencies, remembered, consumers, register⟩
  simp only [transform?, found]
  rcases forgotten with forgotten | forgotten
  · simp only at forgotten
    subst forgotten
    cases dependencies <;> rfl
  · simp only at forgotten
    subst forgotten
    rfl

/-- A node keeps its transform when a graph is extended. -/
theorem Extends.transform?_eq (extended : graph.Extends larger)
    (select : Payload α → Option τ) (inside : id.index < graph.size) :
    larger.transform? select id = graph.transform? select id := by
  rcases exists_node?_of_lt inside with ⟨node, found⟩
  rcases extended id node found with ⟨same, sameFound, operation⟩
  rcases Node.eq_of_operation_eq operation with ⟨-, -, dependencies, payload⟩
  cases recorded : node.payload with
  | none =>
      rw [transform?_eq_none sameFound (Or.inl (payload.trans recorded)),
        transform?_eq_none found (Or.inl recorded)]
  | some transform =>
      cases listed : node.dependencies with
      | nil =>
          rw [transform?_eq_none sameFound (Or.inr (dependencies.trans listed)),
            transform?_eq_none found (Or.inr listed)]
      | cons source others =>
          rw [transform?_of_node? sameFound (payload.trans recorded)
            (dependencies.trans listed),
            transform?_of_node? found recorded listed]

end Transforms

/-! ## Merged graphs -/

/-- A graph in which payloads follow parameters and transforms are merged. -/
structure Merged (graph : Graph α) : Prop where
  /-- The nodes are operations on earlier nodes. -/
  valid : graph.Valid
  /-- Payloads follow parameters. -/
  recorded : ∀ id node, graph.node? id = some node →
    Payload.Records node.opcode node.parameters node.payload
  /-- A transform does not depend on one of its kind. -/
  apart : ∀ id node, graph.node? id = some node →
    node.opcode = .transformTo ∨ node.opcode = .transformFrom →
      ∀ dependency ∈ node.dependencies, ∀ source,
        graph.node? dependency = some source → source.opcode ≠ node.opcode

theorem merged_initial : (initial : Graph α).Merged where
  valid := valid_initial
  recorded := by
    intro id node found
    rcases id with ⟨index⟩
    obtain rfl : index = 0 := Nat.lt_one_iff.mp (index_lt_of_node? found)
    cases found
    exact .plain nofun nofun
  apart := by
    intro id node found
    rcases id with ⟨index⟩
    obtain rfl : index = 0 := Nat.lt_one_iff.mp (index_lt_of_node? found)
    cases found
    intro _ dependency member
    cases member

/-- Inserting a node that is recorded and apart keeps a graph merged. -/
theorem Merged.insert {graph : Graph α} {node : Node α} (merged : graph.Merged)
    (admissible : node.Admissible graph.size)
    (recorded : Payload.Records node.opcode node.parameters node.payload)
    (apart : node.opcode = .transformTo ∨ node.opcode = .transformFrom →
      ∀ dependency ∈ node.dependencies, ∀ source,
        graph.node? dependency = some source → source.opcode ≠ node.opcode) :
    (graph.insert node).2.Merged where
  valid := merged.valid.insert admissible
  recorded := by
    intro id other found
    rcases node?_insert_cases found with
      ⟨-, rfl⟩ | ⟨former, formerFound, operation⟩
    · exact recorded
    · rcases Node.eq_of_operation_eq operation with
        ⟨opcode, parameters, -, payload⟩
      rw [← opcode, ← parameters, ← payload]
      exact merged.recorded id former formerFound
  apart := by
    have earlier : ∀ dependency : NodeId, dependency.index < graph.size →
        ∀ source, (graph.insert node).2.node? dependency = some source →
          ∃ former, graph.node? dependency = some former ∧
            former.opcode = source.opcode := by
      intro dependency inside source found
      rcases node?_insert_cases found with
        ⟨rfl, -⟩ | ⟨former, formerFound, operation⟩
      · exact absurd inside (Nat.lt_irrefl _)
      · exact ⟨former, formerFound,
          (Node.eq_of_operation_eq operation).1⟩
    intro id other found isTransform dependency member source sourceFound
    rcases node?_insert_cases found with
      ⟨-, rfl⟩ | ⟨former, formerFound, operation⟩
    · obtain ⟨original, originalFound, same⟩ := earlier dependency
        (admissible.earlier dependency member) source sourceFound
      rw [← same]
      exact apart isTransform dependency member original originalFound
    · rcases Node.eq_of_operation_eq operation with ⟨opcode, -, dependencies, -⟩
      rw [← opcode] at isTransform ⊢
      rw [← dependencies] at member
      have before := merged.valid.earlier formerFound dependency member
      obtain ⟨original, originalFound, same⟩ := earlier dependency
        (Nat.lt_trans before (index_lt_of_node? formerFound)) source sourceFound
      rw [← same]
      exact merged.apart id former formerFound isTransform dependency member
        original originalFound

variable [DecidableEq α]

/--
An admissible node that is recorded and apart is made in a merged graph, or found
there with the same payload.
-/
theorem Merged.exists_make {graph : Graph α} {opcode : Opcode}
    {parameters : List α} {dependencies : List NodeId}
    {payload : Option (Payload α)} (merged : graph.Merged)
    (kernel : opcode.hasKernel = true)
    (arity : opcode.arity.accepts dependencies.length = true)
    (accepted : opcode.parameters.accepts parameters.length = true)
    (inside : ∀ id ∈ dependencies, id.index < graph.size)
    (recorded : Payload.Records opcode parameters payload)
    (apart : opcode = .transformTo ∨ opcode = .transformFrom →
      ∀ dependency ∈ dependencies, ∀ source,
        graph.node? dependency = some source → source.opcode ≠ opcode) :
    ∃ id larger node,
      Build.make opcode parameters dependencies payload graph =
          (.ok id, larger) ∧
        larger.Merged ∧ graph.Extends larger ∧
        larger.node? id = some node ∧ node.opcode = opcode ∧
        node.parameters = parameters ∧ node.dependencies = dependencies ∧
        node.payload = payload := by
  have clear : graph.obstacle? opcode parameters dependencies = none :=
    obstacle?_eq_none_iff.mpr ⟨kernel, arity, accepted, inside⟩
  rcases graph.make_cases opcode parameters dependencies payload with
    ⟨error, failed, -⟩ | ⟨id, -, found, hit⟩ | ⟨-, -, inserted⟩
  · rw [clear] at failed
    cases failed
  · rcases exists_node?_of_find? found with
      ⟨node, nodeFound, sameOpcode, sameParameters, sameDependencies⟩
    refine ⟨id, { graph with hits := graph.hits + 1 }, node,
      by simp only [Build.make, hit],
      ⟨⟨merged.valid.point, merged.valid.admissible⟩, merged.recorded,
        merged.apart⟩,
      Extends.refl graph, nodeFound, sameOpcode, sameParameters,
      sameDependencies, ?_⟩
    have records := merged.recorded id node nodeFound
    rw [sameOpcode, sameParameters] at records
    exact records.unique recorded
  · let node := Node.make opcode parameters dependencies payload
    refine ⟨(graph.insert node).1, (graph.insert node).2, node,
      by simp only [Build.make, inserted, node],
      merged.insert ⟨kernel, arity, accepted, inside⟩ recorded apart,
      extends_insert graph _, node?_insert_self graph _, rfl, rfl, rfl, rfl⟩

end Graph

end SolidField
