import SolidField.Graph.Basic

/-!
# Lowering shapes into a graph

A shape becomes nodes of an operation graph, relative to the node that carries
the evaluation point.  A similarity wraps its child between a node that moves
the point and a node that moves the value back.  Where the point already comes
from such a node, or the value of the child does, the two similarities are
merged into one node; a similarity that moves nothing makes no node.
-/

universe u

namespace SolidField

/-- The parameter of a boolean; every sharp radius has the same one. -/
def filletParameter {α : Type u} [Scalar α] (radius : α) : α :=
  if Scalar.less 0 radius then radius else -1

namespace Similarity

variable {α : Type u}

/-- The parameters of the node that applies a similarity to points. -/
def parameters (t : Similarity α) : List α :=
  [ t.rotation.x, t.rotation.y, t.rotation.z, t.rotation.w, t.scale,
    t.translation.x, t.translation.y, t.translation.z ]

end Similarity

/-- A rotation with a scale: what a similarity does to values. -/
structure ValueTransform (α : Type u) where
  rotation : Rotation α
  scale : α
deriving DecidableEq

namespace ValueTransform

variable {α : Type u}

/-- The parameters of the node that applies the transform to values. -/
def parameters (t : ValueTransform α) : List α :=
  [t.rotation.x, t.rotation.y, t.rotation.z, t.rotation.w, t.scale]

variable [Scalar α]

/-- What a similarity does to values. -/
def ofSimilarity (t : Similarity α) : ValueTransform α :=
  ⟨t.rotation, t.scale⟩

/-- First the one given, then this one. -/
def after (t first : ValueTransform α) : ValueTransform α :=
  ⟨(t.rotation * first.rotation).normalize, t.scale * first.scale⟩

/-- Numerically without effect. -/
def isIdentity (t : ValueTransform α) : Bool :=
  t.rotation.equal .identity && Scalar.equal t.scale 1

end ValueTransform

namespace Payload

variable {α : Type u}

/-- The similarity of a node that applies one to points. -/
def point? : Payload α → Option (Similarity α)
  | .point transform => some transform
  | .value _ _ => none

/-- The transform of a node that applies one to values. -/
def value? : Payload α → Option (ValueTransform α)
  | .point _ => none
  | .value rotation scale => some ⟨rotation, scale⟩

end Payload

namespace Graph

variable {α : Type u}

/-- The transform that a node remembers, and the node that it acts on. -/
def transform? {τ : Type u} (graph : Graph α) (select : Payload α → Option τ)
    (id : NodeId) : Option (τ × NodeId) :=
  match graph.node? id with
  | some ⟨_, _, source :: _, some payload, _, _⟩ =>
      (select payload).map fun transform => (transform, source)
  | _ => none

/-- The similarity that a node applies to points, and the node it takes them from. -/
def pointTransform? (graph : Graph α) (id : NodeId) :
    Option (Similarity α × NodeId) :=
  graph.transform? Payload.point? id

/-- The transform that a node applies to values, and the node it takes them from. -/
def valueTransform? (graph : Graph α) (id : NodeId) :
    Option (ValueTransform α × NodeId) :=
  graph.transform? Payload.value? id

end Graph

namespace Build

variable {α : Type u} [Scalar α] [DecidableEq α]

/-- Move the points of a node by a similarity, merging it with the one before. -/
def movePoint (point : NodeId) (toChild : Similarity α) : Build α NodeId :=
  fun graph =>
    let (merged, source) :=
      match graph.pointTransform? point with
      | some (previous, source) => (toChild.after previous, source)
      | none => (toChild, point)
    if merged.isIdentity then
      (.ok source, graph)
    else
      Build.make .transformTo merged.parameters [source]
        (some (.point merged)) graph

/-- Move the values of a node by a similarity, merging it with the one before. -/
def moveValue (child : NodeId) (toParent : ValueTransform α) :
    Build α NodeId :=
  fun graph =>
    let (merged, source) :=
      match graph.valueTransform? child with
      | some (inner, source) => (toParent.after inner, source)
      | none => (toParent, child)
    if merged.isIdentity then
      (.ok source, graph)
    else
      Build.make .transformFrom merged.parameters [source]
        (some (.value merged.rotation merged.scale)) graph

/-- Combine the nodes of a list, a single one being its own combination. -/
def combine (opcode : Opcode) (parameter : α) (nodes : List NodeId) :
    Build α NodeId :=
  match nodes with
  | [single] => pure single
  | _ => make opcode [parameter] nodes

/-- Refuse a similarity that is not valid. -/
def requireValid (transform : Similarity α) : Build α Unit :=
  if transform.isValid then
    pure ()
  else
    Attempt.fail (.invalidShape (.transform transform))

end Build

namespace Shape

variable {α : Type u} [Scalar α] [DecidableEq α]

mutual

/-- The node of a shape, relative to the node that carries the point. -/
def lowerAt (point : NodeId) : Shape α → Build α NodeId
  | rectangle halfSize => Build.make .rectangle halfSize.toList [point]
  | circle radius => Build.make .circle [radius] [point]
  | polygon points =>
      Build.make .polygon (points.flatMap Vec2.toList) [point]
  | sphere radius => Build.make .sphere [radius] [point]
  | box halfExtents => Build.make .box halfExtents.toList [point]
  | cylinder radius height => Build.make .cylinder [radius, height] [point]
  | extrusion profile height => do
      let profile ← lowerAt point profile
      Build.make .extrusion [height] [profile, point]
  | revolution profile => do
      let folded ← Build.make .revolutionTo [] [point]
      let profile ← lowerAt folded profile
      Build.make .revolutionFrom [] [profile, point]
  | union shapes radius => do
      let nodes ← lowerAllAt point shapes
      Build.combine .union (filletParameter radius) nodes
  | intersection shapes radius => do
      let nodes ← lowerAllAt point shapes
      Build.combine .intersection (filletParameter radius) nodes
  | subtraction base tool radius => do
      let base ← lowerAt point base
      let tool ← lowerAt point tool
      Build.make .subtraction [filletParameter radius] [base, tool]
  | offset shape distance => do
      let child ← lowerAt point shape
      Build.make .offset [distance] [child]
  | shell shape thickness => do
      let child ← lowerAt point shape
      Build.make .shell [thickness * Scalar.half] [child]
  | transformed shape transform => do
      Build.requireValid transform
      let moved ← Build.movePoint point transform.inverse
      let child ← lowerAt moved shape
      Build.moveValue child (.ofSimilarity transform)

/-- The nodes of the shapes of a list, from the left. -/
def lowerAllAt (point : NodeId) : List (Shape α) → Build α (List NodeId)
  | [] => pure []
  | shape :: shapes => do
      let node ← lowerAt point shape
      let nodes ← lowerAllAt point shapes
      pure (node :: nodes)

end

/-- The node of a shape in a graph. -/
def lower (shape : Shape α) : Build α NodeId :=
  lowerAt Graph.point shape

end Shape

end SolidField
