import SolidField.Graph.Basic

/-!
# Expressions of a graph

A node stands for an expression tree: its operation on the expressions of its
dependencies.  Nodes that share a dependency repeat it in their trees.
-/

universe u

namespace SolidField

/-- An operation with its parameters on the operands in their order. -/
inductive Expression (α : Type u) where
  | node (opcode : Opcode) (parameters : List α) (operands : List (Expression α))

namespace Graph

variable {α : Type u}

/-- The tree of a node below a bound, which decreases with every dependency. -/
def expressionBelow? (graph : Graph α) : Nat → NodeId → Option (Expression α)
  | 0, _ => none
  | bound + 1, id => do
      let node ← graph.node? id
      (node.dependencies.mapM (graph.expressionBelow? bound)).map
        (.node node.opcode node.parameters)

/-- The expression tree that a node stands for. -/
def expression? (graph : Graph α) (id : NodeId) : Option (Expression α) :=
  graph.expressionBelow? (id.index + 1) id

end Graph

end SolidField
