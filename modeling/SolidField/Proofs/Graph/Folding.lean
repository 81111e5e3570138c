import SolidField.Proofs.Graph.Evaluation

/-!
# Folded values of a graph

A folding fixes for every node in which order the chain of its dependencies is
applied.  A valid graph has values at every point under every folding, and the
nodes of the graph have no others.
-/

universe u

namespace SolidField

namespace Graph

variable {α : Type u}

/-- An order of the dependencies of every node, for its chain. -/
structure Folding (graph : Graph α) (order : NodeId → List NodeId) : Prop where
  /-- The order has the dependencies of the node, as often as they occur. -/
  perm : ∀ id node, graph.node? id = some node →
    (order id).Perm node.dependencies
  /-- Up to two dependencies stay as they are declared. -/
  declared : ∀ id node, graph.node? id = some node →
    node.dependencies.length ≤ 2 → order id = node.dependencies

variable {graph : Graph α} {order : NodeId → List NodeId}

theorem Folding.earlier (folding : graph.Folding order) (valid : graph.Valid)
    {id : NodeId} {node : Node α} (found : graph.node? id = some node) :
    ∀ dependency ∈ order id, dependency.index < id.index :=
  fun dependency member =>
    valid.earlier found dependency
      ((folding.perm id node found).mem_iff.mp member)

variable [Scalar α]

/-- Values of all nodes at a point, with every chain in the order of a folding. -/
structure FoldedValuation (graph : Graph α) (order : NodeId → List NodeId)
    (point : Vec3 α) (value : NodeId → Vec4 α) : Prop where
  point : ∀ id node, graph.node? id = some node → node.opcode = .point →
    value id = Kernel.pointValue point
  node : ∀ id node, graph.node? id = some node → node.opcode ≠ .point →
    node.opcode.combine? node.parameters ((order id).map value) =
      some (value id)

variable {point : Vec3 α}

/-- The nodes of a valid graph have one value each under a folding. -/
theorem FoldedValuation.unique {value other : NodeId → Vec4 α}
    (valid : graph.Valid) (folding : graph.Folding order)
    (folded : graph.FoldedValuation order point value)
    (otherFolded : graph.FoldedValuation order point other)
    {id : NodeId} {node : Node α} (found : graph.node? id = some node) :
    value id = other id := by
  rcases id with ⟨index⟩
  induction index using Nat.strongRecOn generalizing node with
  | ind index induction =>
      by_cases isPoint : node.opcode = .point
      · rw [folded.point _ node found isPoint,
          otherFolded.point _ node found isPoint]
      · have equal : (order ⟨index⟩).map value = (order ⟨index⟩).map other := by
          apply List.map_congr_left
          intro dependency member
          have before := folding.earlier valid found dependency member
          obtain ⟨earlier, earlierFound⟩ :=
            exists_node?_of_lt (Nat.lt_trans before (index_lt_of_node? found))
          exact induction dependency.index before earlierFound
        have left := folded.node _ node found isPoint
        rw [equal, otherFolded.node _ node found isPoint] at left
        exact (Option.some.inj left).symm

/-- A value satisfies the equation of a node at a point under a folding. -/
def Satisfies (order : NodeId → List NodeId) (point : Vec3 α)
    (value : NodeId → Vec4 α) (id : NodeId) (node : Node α) : Prop :=
  if node.opcode = .point then
    value id = Kernel.pointValue point
  else
    node.opcode.combine? node.parameters ((order id).map value) =
      some (value id)

theorem Satisfies.congr {value other : NodeId → Vec4 α} {id : NodeId}
    {node : Node α} (satisfied : Satisfies order point value id node)
    (same : other id = value id)
    (dependencies : ∀ dependency ∈ order id,
      other dependency = value dependency) :
    Satisfies order point other id node := by
  unfold Satisfies at satisfied ⊢
  rwa [List.map_congr_left dependencies, same]

/-- Some value satisfies the equation of a node if its dependencies have one. -/
theorem exists_satisfies (valid : graph.Valid) (folding : graph.Folding order)
    (point : Vec3 α) (value : NodeId → Vec4 α) {id : NodeId} {node : Node α}
    (found : graph.node? id = some node) :
    ∃ new, Satisfies order point
      (fun other => if other = id then new else value other) id node := by
  have others : ∀ new, (order id).map
      (fun other => if other = id then new else value other) =
        (order id).map value := by
    intro new
    refine List.map_congr_left fun dependency member => if_neg ?_
    rintro rfl
    exact Nat.lt_irrefl _ (folding.earlier valid found dependency member)
  by_cases isPoint : node.opcode = .point
  · exact ⟨Kernel.pointValue point, by simp [Satisfies, isPoint]⟩
  · have notFirst : id ≠ Graph.point := by
      rintro rfl
      rcases valid.point with ⟨first, firstFound, opcode, -⟩
      rw [firstFound] at found
      cases found
      exact isPoint opcode
    have admissible := valid.admissible id node found notFirst
    have nonempty : (order id).map value ≠ [] := by
      rw [ne_eq, List.map_eq_nil_iff, ← List.length_eq_zero_iff,
        (folding.perm id node found).length_eq]
      exact Nat.ne_of_gt
        (Opcode.pos_of_accepts admissible.kernel admissible.arity)
    obtain ⟨new, combined⟩ :=
      Opcode.exists_combine? admissible.kernel admissible.parameters nonempty
    exact ⟨new, by simp [Satisfies, isPoint, others, combined]⟩

/-- A valid graph has values at every point under every folding. -/
theorem exists_foldedValuation (valid : graph.Valid)
    (folding : graph.Folding order) (point : Vec3 α) :
    ∃ value, graph.FoldedValuation order point value := by
  have below : ∀ bound, ∃ value : NodeId → Vec4 α,
      ∀ id node, graph.node? id = some node → id.index < bound →
        Satisfies order point value id node := by
    intro bound
    -- A new value does not touch the equations of the nodes below it, because
    -- their dependencies are below them.
    induction bound with
    | zero => exact ⟨fun _ => 0, fun _ _ _ inside => absurd inside (by simp)⟩
    | succ bound induction =>
        rcases induction with ⟨value, satisfied⟩
        cases last : graph.node? ⟨bound⟩ with
        | none =>
            refine ⟨value, fun id node found inside => ?_⟩
            rw [node?_eq_none_iff] at last
            have := index_lt_of_node? found
            exact satisfied id node found (by simp only at last; omega)
        | some node =>
            rcases exists_satisfies valid folding point value last with
              ⟨new, newSatisfied⟩
            refine ⟨fun other => if other = ⟨bound⟩ then new else value other,
              fun id other found inside => ?_⟩
            by_cases isLast : id = ⟨bound⟩
            · subst isLast
              rw [last] at found
              cases found
              exact newSatisfied
            · have before : id.index < bound := by
                have : id.index ≠ bound := fun equal =>
                  isLast (by cases id; simp_all)
                omega
              refine (satisfied id other found before).congr (if_neg isLast) ?_
              intro dependency member
              refine if_neg ?_
              rintro rfl
              have := folding.earlier valid found _ member
              simp only at this
              omega
  rcases below graph.size with ⟨value, satisfied⟩
  refine ⟨value, ?_, ?_⟩
  · intro id node found isPoint
    simpa [Satisfies, isPoint] using
      satisfied id node found (index_lt_of_node? found)
  · intro id node found isPoint
    simpa [Satisfies, isPoint] using
      satisfied id node found (index_lt_of_node? found)

end Graph

end SolidField
