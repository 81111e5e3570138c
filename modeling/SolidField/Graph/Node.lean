import SolidField.Geometry.Text
import SolidField.Opcode
import SolidField.Shape.Basic

/-!
# Nodes of an operation graph

A node is an operation with its parameters and the nodes that it depends on.
`BuildError` lists every reason why a shape or a node cannot be built.
-/

universe u

namespace SolidField

/-- The position of a node in its graph. -/
structure NodeId where
  /-- The number of nodes that were made before. -/
  index : Nat
deriving DecidableEq, Repr, Inhabited

def NodeId.text (id : NodeId) : String :=
  "#" ++ toString id.index

/--
What a transforming node remembers of its transform, so that a transform
around it can be merged with it.
-/
inductive Payload (α : Type u) where
  /-- The similarity that a node applies to points. -/
  | point (transform : Similarity α)
  /-- The rotation and scale that a node applies to values. -/
  | value (rotation : Rotation α) (scale : α)
deriving DecidableEq

/-- An operation on the values of earlier nodes. -/
structure Node (α : Type u) where
  opcode : Opcode
  parameters : List α
  dependencies : List NodeId
  /-- The transform that it applies, where merging needs to know it. -/
  payload : Option (Payload α)
  /-- How often it occurs among the dependencies of all nodes, in a machine word. -/
  consumers : UInt32
  /-- The register that the last compilation gave it. -/
  register : Option UInt8

namespace Node

variable {α : Type u}

def point : Node α :=
  ⟨.point, [], [], none, 0, none⟩

/-- A new node without consumers. -/
def make (opcode : Opcode) (parameters : List α) (dependencies : List NodeId)
    (payload : Option (Payload α)) : Node α :=
  ⟨opcode, parameters, dependencies, payload, 0, none⟩

/-- The node computes a given operation on given nodes. -/
def computes [DecidableEq α] (node : Node α) (opcode : Opcode)
    (parameters : List α) (dependencies : List NodeId) : Bool :=
  node.opcode = opcode && node.dependencies = dependencies &&
    node.parameters = parameters

end Node

/-- Why a shape is no shape. -/
inductive InvalidShape (α : Type u) where
  | fewVertices (count : Nat)
  | unboundedVertex
  | emptyBoolean
  | scaleFactor (factor : α)
  | transform (transform : Similarity α)
deriving DecidableEq

/-- Why a shape or a node cannot be built. -/
inductive BuildError (α : Type u) where
  | arityMismatch (opcode : Opcode) (count : Nat)
  | parameterCountMismatch (opcode : Opcode) (count : Nat)
  | reservedOpcode (opcode : Opcode)
  | unknownNode (id : NodeId)
  | dimensionMismatch (expected found : Dimension)
  | invalidShape (reason : InvalidShape α)
deriving DecidableEq

def InvalidShape.message : InvalidShape Single → String
  | fewVertices count =>
      "polygon needs at least 3 vertices, got " ++ toString count
  | unboundedVertex => "polygon vertices must be finite"
  | emptyBoolean => "boolean of zero shapes"
  | scaleFactor factor =>
      "scale factor must be positive and finite, got " ++ factor.plainText
  | .transform placement =>
      "transform must have a positive finite scale and finite rotation " ++
        "and translation, got " ++ placement.text

def BuildError.message : BuildError Single → String
  | arityMismatch opcode count =>
      opcode.name ++ " expects " ++ opcode.arity.text ++ ", got " ++ toString count
  | parameterCountMismatch opcode count =>
      opcode.name ++ " expects " ++ opcode.parameters.text ++ ", got " ++
        toString count
  | reservedOpcode opcode =>
      opcode.name ++ " is reserved and cannot be built as a node"
  | unknownNode id =>
      "node " ++ id.text ++ " does not belong to this cache"
  | dimensionMismatch expected found =>
      "dimension mismatch: expected a " ++ toString expected.axes ++
        "D shape, got " ++ toString found.axes ++ "D"
  | invalidShape reason => "invalid shape: " ++ reason.message

end SolidField
