import SolidField.Graph.Basic

/-!
# Points and values

A register holds either a point or the value of a shape.  Every operation makes one
of the two and reads certain ones.  A graph is well typed if every node reads what
its operation is meant to read.
-/

universe u

namespace SolidField

/-- What a register holds. -/
inductive Content where
  /-- A point, in the first three components. -/
  | point
  /-- The gradient and the distance of a shape. -/
  | value
deriving DecidableEq, Repr

/--
Two registers agree on what matters of their content: on all of a point, and on the
distance of a value.
-/
def Content.Matches {α : Type u} : Content → Vec4 α → Vec4 α → Prop
  | point, a, b => a = b
  | value, a, b => a.w = b.w

namespace Opcode

/-- What an operation makes. -/
def content (opcode : Opcode) : Content :=
  if opcode = point ∨ opcode.isPointMapping then .point else .value

/-- What an operation reads as its first input. -/
def firstInput (opcode : Opcode) : Content :=
  if opcode.isPrimitive ∨ opcode.isPointMapping then .point else .value

/-- What an operation reads as any further input. -/
def otherInput : Opcode → Content
  | extrusion | revolutionFrom => .point
  | _ => .value

/-- What an operation reads as its input at a position. -/
def inputContent (opcode : Opcode) : Nat → Content
  | 0 => opcode.firstInput
  | _ + 1 => opcode.otherInput

end Opcode

namespace Graph

variable {α : Type u}

/-- A node makes a point or a value. -/
def Makes (graph : Graph α) (id : NodeId) (content : Content) : Prop :=
  ∃ node, graph.node? id = some node ∧ node.opcode.content = content

/-- Every node reads points where its operation reads points, and values elsewhere. -/
def WellTyped (graph : Graph α) : Prop :=
  ∀ id node, graph.node? id = some node →
    ∀ position dependency, node.dependencies[position]? = some dependency →
      graph.Makes dependency (node.opcode.inputContent position)

end Graph

end SolidField
