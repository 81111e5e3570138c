import SolidField.Graph.Value

/-!
# Interpretations of the kernels

An interpretation gives any meaning to the kernels, those of the transforms apart:
a function from points to points for a revolution, and a function on values for all
others.  Under an interpretation the nodes of a graph have values as they have under
the kernels themselves, which are the standard interpretation.
-/

universe u

namespace SolidField

/-- A meaning of the kernels of all operations but the transforms. -/
structure Interpretation (α : Type u) where
  /-- Where a revolution looks its profile up. -/
  fold : Vec3 α → Vec3 α
  /-- What any other operation makes of its parameters and values. -/
  operate? : Opcode → List α → List (Vec4 α) → Option (Vec4 α)

variable {α : Type u} [Scalar α]

namespace Interpretation

/-- The kernels themselves. -/
def standard : Interpretation α where
  fold point := (Kernel.revolutionTo (Kernel.pointValue point)).truncate
  operate? := Opcode.combine?

/-- The value of an operation on the values of its dependencies. -/
def combine? (interpretation : Interpretation α) (opcode : Opcode)
    (parameters : List α) (values : List (Vec4 α)) : Option (Vec4 α) :=
  match opcode, values with
  | .transformTo, values | .transformFrom, values =>
      opcode.combine? parameters values
  | .revolutionTo, [point] =>
      some (Kernel.pointValue (interpretation.fold point.truncate))
  | opcode, values => interpretation.operate? opcode parameters values

end Interpretation

namespace Graph

/-- The value of a node below a bound, under an interpretation. -/
def valueBelowUnder? (interpretation : Interpretation α) (graph : Graph α)
    (point : Vec3 α) : Nat → NodeId → Option (Vec4 α)
  | 0, _ => none
  | bound + 1, id => do
      let node ← graph.node? id
      if node.opcode = .point then
        some (Kernel.pointValue point)
      else
        let values ← node.dependencies.mapM
          (graph.valueBelowUnder? interpretation point bound)
        interpretation.combine? node.opcode node.parameters values

/-- The value of a node at a point, under an interpretation. -/
def valueUnder? (interpretation : Interpretation α) (graph : Graph α)
    (point : Vec3 α) (id : NodeId) : Option (Vec4 α) :=
  graph.valueBelowUnder? interpretation point (id.index + 1) id

end Graph

end SolidField
