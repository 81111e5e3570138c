import SolidField.Graph.Expression
import SolidField.Graph.Index
import SolidField.Proofs.Graph.Evaluation

/-!
# The expression tree of a node

Every node of a valid graph stands for an expression tree.  Where no two nodes
have the same key, no two of them stand for the same tree.
-/

universe u v

namespace SolidField

variable {β : Type u} {γ : Type v} {function : β → Option γ}

theorem exists_mapM_of_mem {items : List β}
    (succeeds : ∀ item ∈ items, ∃ result, function item = some result) :
    ∃ results, items.mapM function = some results := by
  induction items with
  | nil => exact ⟨[], rfl⟩
  | cons item items induction =>
      rw [List.forall_mem_cons] at succeeds
      rcases succeeds.1 with ⟨result, computed⟩
      rcases induction succeeds.2 with ⟨results, all⟩
      exact ⟨result :: results, by simp [List.mapM_cons, computed, all]⟩

theorem mapM_cons_eq_some_iff {item : β} {items : List β} {results : List γ} :
    (item :: items).mapM function = some results ↔
      ∃ first rest, function item = some first ∧
        items.mapM function = some rest ∧ first :: rest = results := by
  simp [List.mapM_cons, Option.bind_eq_some_iff]

/-- Lists of the same results are equal if equal results have equal arguments. -/
theorem eq_of_mapM_eq_some {items others : List β} {results : List γ}
    (injective : ∀ item ∈ items, ∀ other result, function item = some result →
      function other = some result → item = other)
    (computed : items.mapM function = some results)
    (otherComputed : others.mapM function = some results) : items = others := by
  induction items generalizing others results with
  | nil =>
      cases computed
      cases others with
      | nil => rfl
      | cons other others =>
          rcases mapM_cons_eq_some_iff.mp otherComputed with ⟨_, _, -, -, absurd⟩
          cases absurd
  | cons item items induction =>
      rw [List.forall_mem_cons] at injective
      rcases mapM_cons_eq_some_iff.mp computed with ⟨first, rest, head, tail, rfl⟩
      cases others with
      | nil => cases otherComputed
      | cons other others =>
          rcases mapM_cons_eq_some_iff.mp otherComputed with
            ⟨_, _, otherHead, otherTail, equal⟩
          cases equal
          rw [injective.1 other first head otherHead,
            induction injective.2 tail otherTail]

namespace Graph

variable {α : Type u} {graph : Graph α}

/-- A node unfolds to its operation on what its dependencies unfold to. -/
theorem Valid.expression?_of_node? (valid : graph.Valid) {id : NodeId} {node : Node α}
    (found : graph.node? id = some node) :
    graph.expression? id =
      (node.dependencies.mapM graph.expression?).map
        (Expression.node node.opcode node.parameters) := by
  have same : node.dependencies.mapM (graph.expressionBelow? id.index) =
      node.dependencies.mapM graph.expression? := by
    apply mapM_congr_of_mem
    intro dependency member
    exact valid.eq_of_descent
      (fun node operands =>
        operands.map (Expression.node node.opcode node.parameters))
      (fun _ _ => rfl)
      (valid.earlier found dependency member) (Nat.lt_succ_self _)
  rw [expression?, expressionBelow?, found, ← same]
  rfl

/-- Every node of a valid graph stands for a tree. -/
theorem Valid.exists_expression? (valid : graph.Valid) {id : NodeId}
    (inside : id.index < graph.size) : ∃ tree, graph.expression? id = some tree := by
  rcases id with ⟨index⟩
  induction index using Nat.strongRecOn with
  | ind index induction =>
      rcases exists_node?_of_lt inside with ⟨node, found⟩
      have operands : ∀ dependency ∈ node.dependencies,
          ∃ tree, graph.expression? dependency = some tree := by
        intro dependency member
        have before := valid.earlier found dependency member
        exact induction dependency.index before (Nat.lt_trans before inside)
      rcases exists_mapM_of_mem operands with ⟨trees, computed⟩
      exact ⟨_, by rw [valid.expression?_of_node? found, computed]; rfl⟩

theorem exists_node?_of_expression? {id : NodeId} {tree : Expression α}
    (unfolded : graph.expression? id = some tree) :
    ∃ node, graph.node? id = some node := by
  cases found : graph.node? id with
  | none => simp [expression?, expressionBelow?, found] at unfolded
  | some node => exact ⟨node, rfl⟩

/-- Where no two nodes have one key, no two stand for one tree. -/
theorem Valid.eq_of_expression? (valid : graph.Valid)
    (distinct : ∀ id other node same, graph.node? id = some node →
      graph.node? other = some same → node.key = same.key → id = other)
    {id other : NodeId} {tree : Expression α}
    (unfolded : graph.expression? id = some tree)
    (otherUnfolded : graph.expression? other = some tree) : id = other := by
  rcases id with ⟨index⟩
  induction index using Nat.strongRecOn generalizing other tree with
  | ind index induction =>
      rcases exists_node?_of_expression? unfolded with ⟨node, found⟩
      rcases exists_node?_of_expression? otherUnfolded with ⟨same, sameFound⟩
      rw [valid.expression?_of_node? found, Option.map_eq_some_iff] at unfolded
      rw [valid.expression?_of_node? sameFound, Option.map_eq_some_iff]
        at otherUnfolded
      rcases unfolded with ⟨trees, computed, rfl⟩
      rcases otherUnfolded with ⟨sameTrees, sameComputed, equal⟩
      rcases Expression.node.inj equal with ⟨opcode, parameters, rfl⟩
      have dependencies : node.dependencies = same.dependencies := by
        refine eq_of_mapM_eq_some ?_ computed sameComputed
        intro dependency member another result first second
        exact induction dependency.index (valid.earlier found dependency member)
          second first
      refine distinct _ _ node same found sameFound ?_
      rw [Node.key, Node.key, opcode, parameters, dependencies]

end Graph

end SolidField
