import SolidField.Graph.Basic
import SolidField.Kernel.Evaluate

/-!
# The meaning of a graph

Every node of a graph has a value at a point.  The evaluation point carries the
point itself, and every other node applies its operation to the values of its
dependencies.  An operation with more than two dependencies is a chain of binary
applications.  `Graph.value?` takes the dependencies as declared.
-/

universe u

namespace SolidField

namespace Opcode

variable {α : Type u} [Scalar α]

/-- The chain that folds values from the left, starting with the first one. -/
def chain? (opcode : Opcode) (parameters : List α) (first : Vec4 α)
    (rest : List (Vec4 α)) : Option (Vec4 α) :=
  rest.foldlM (fun folded value => Kernel.evaluate? opcode parameters folded value)
    first

/--
The value of an operation on the values of its dependencies.  The outermost
application of a chain has the last value as its first input.
-/
def combine? (opcode : Opcode) (parameters : List α) :
    List (Vec4 α) → Option (Vec4 α)
  | [] => none
  | [value] => Kernel.evaluate? opcode parameters value 0
  | [first, second] => Kernel.evaluate? opcode parameters first second
  | first :: second :: rest => do
      let others ← opcode.chain? parameters first (second :: rest.dropLast)
      Kernel.evaluate? opcode parameters (rest.getLastD second) others

end Opcode

namespace Graph

variable {α : Type u} [Scalar α]

/-- The value of a node below a bound, which decreases with every dependency. -/
def valueBelow? (graph : Graph α) (point : Vec3 α) : Nat → NodeId → Option (Vec4 α)
  | 0, _ => none
  | bound + 1, id => do
      let node ← graph.node? id
      if node.opcode = .point then
        some (Kernel.pointValue point)
      else
        let values ← node.dependencies.mapM (graph.valueBelow? point bound)
        node.opcode.combine? node.parameters values

/-- The value of a node at a point, with every chain in the declared order. -/
def value? (graph : Graph α) (point : Vec3 α) (id : NodeId) : Option (Vec4 α) :=
  graph.valueBelow? point (id.index + 1) id

end Graph

end SolidField
