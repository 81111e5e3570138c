import SolidField.Shape.Lowering

/-!
# Composite transforms

The similarities that a shape is written with, and the transforms that lowering makes
of them for its nodes: the inverse of every similarity after the ones around it, and
the rotation and scale of every similarity after the ones of its child.  Lowering
checks the former only; `boundedTransform` is the check of what a node is given.
-/

universe u

namespace SolidField

variable {α : Type u} [Scalar α]

/--
All parameters of a transforming node are of bounded size and its scale, the fifth
of them, is positive.
-/
def boundedTransform (parameters : List α) : Bool :=
  parameters.all Scalar.isFinite && parameters[4]?.any Scalar.isPositiveFinite

/-- Every node that transforms points or values does so within bounds. -/
def Graph.TransformsBounded (graph : Graph α) : Prop :=
  ∀ id node, graph.node? id = some node →
    node.opcode = .transformTo ∨ node.opcode = .transformFrom →
      boundedTransform node.parameters = true

/-- A similarity after the one that is pending, unless the two move nothing. -/
def Similarity.following (toChild : Similarity α)
    (pending : Option (Similarity α)) : Option (Similarity α) :=
  let merged := pending.elim toChild toChild.after
  if merged.isIdentity then none else some merged

/-- A transform after the one that is pending, unless the two change nothing. -/
def ValueTransform.following (toParent : ValueTransform α)
    (pending : Option (ValueTransform α)) : Option (ValueTransform α) :=
  let merged := pending.elim toParent toParent.after
  if merged.isIdentity then none else some merged

namespace Shape

section Written

variable {β : Type u}

mutual

/-- The similarities that a shape is written with. -/
def similarities : Shape β → List (Similarity β)
  | rectangle _ | circle _ | polygon _ | sphere _ | box _ | cylinder _ _ => []
  | extrusion profile _ => profile.similarities
  | revolution profile => profile.similarities
  | union shapes _ => allSimilarities shapes
  | intersection shapes _ => allSimilarities shapes
  | subtraction base tool _ => base.similarities ++ tool.similarities
  | offset shape _ => shape.similarities
  | shell shape _ => shape.similarities
  | transformed shape transform => transform :: shape.similarities

/-- The similarities that the shapes of a list are written with. -/
def allSimilarities : List (Shape β) → List (Similarity β)
  | [] => []
  | shape :: shapes => shape.similarities ++ allSimilarities shapes

end

mutual

/-- Every boolean of a shape has an operand. -/
def hasOperands : Shape β → Bool
  | rectangle _ | circle _ | polygon _ | sphere _ | box _ | cylinder _ _ => true
  | extrusion profile _ => profile.hasOperands
  | revolution profile => profile.hasOperands
  | union shapes _ => !shapes.isEmpty && allHaveOperands shapes
  | intersection shapes _ => !shapes.isEmpty && allHaveOperands shapes
  | subtraction base tool _ => base.hasOperands && tool.hasOperands
  | offset shape _ => shape.hasOperands
  | shell shape _ => shape.hasOperands
  | transformed shape _ => shape.hasOperands

/-- Every boolean of the shapes of a list has an operand. -/
def allHaveOperands : List (Shape β) → Bool
  | [] => true
  | shape :: shapes => shape.hasOperands && allHaveOperands shapes

end

end Written

mutual

/-- The transform that the node of a shape applies to values. -/
def pendingValue : Shape α → Option (ValueTransform α)
  | union shapes _ => pendingOfSingle shapes
  | intersection shapes _ => pendingOfSingle shapes
  | transformed shape transform =>
      (ValueTransform.ofSimilarity transform).following shape.pendingValue
  | _ => none

/-- The transform of a boolean of a single shape is that of the shape. -/
def pendingOfSingle : List (Shape α) → Option (ValueTransform α)
  | [single] => single.pendingValue
  | _ => none

end

mutual

/-- The similarities that nodes apply to points, below one that is pending. -/
def pointTransforms (pending : Option (Similarity α)) :
    Shape α → List (Similarity α)
  | rectangle _ | circle _ | polygon _ | sphere _ | box _ | cylinder _ _ => []
  | extrusion profile _ => profile.pointTransforms pending
  | revolution profile => profile.pointTransforms none
  | union shapes _ => allPointTransforms pending shapes
  | intersection shapes _ => allPointTransforms pending shapes
  | subtraction base tool _ =>
      base.pointTransforms pending ++ tool.pointTransforms pending
  | offset shape _ => shape.pointTransforms pending
  | shell shape _ => shape.pointTransforms pending
  | transformed shape transform =>
      let moved := transform.inverse.following pending
      moved.toList ++ shape.pointTransforms moved

/-- The similarities of the shapes of a list. -/
def allPointTransforms (pending : Option (Similarity α)) :
    List (Shape α) → List (Similarity α)
  | [] => []
  | shape :: shapes =>
      shape.pointTransforms pending ++ allPointTransforms pending shapes

end

mutual

/-- The transforms that nodes apply to values. -/
def valueTransforms : Shape α → List (ValueTransform α)
  | rectangle _ | circle _ | polygon _ | sphere _ | box _ | cylinder _ _ => []
  | extrusion profile _ => profile.valueTransforms
  | revolution profile => profile.valueTransforms
  | union shapes _ => allValueTransforms shapes
  | intersection shapes _ => allValueTransforms shapes
  | subtraction base tool _ => base.valueTransforms ++ tool.valueTransforms
  | offset shape _ => shape.valueTransforms
  | shell shape _ => shape.valueTransforms
  | transformed shape transform =>
      shape.valueTransforms ++
        ((ValueTransform.ofSimilarity transform).following
          shape.pendingValue).toList

/-- The transforms of the shapes of a list. -/
def allValueTransforms : List (Shape α) → List (ValueTransform α)
  | [] => []
  | shape :: shapes => shape.valueTransforms ++ allValueTransforms shapes

end

/-- All transforms that lowering a shape puts into nodes are within bounds. -/
def CompositesBounded (shape : Shape α) : Prop :=
  (∀ transform ∈ shape.pointTransforms none,
      boundedTransform transform.parameters = true) ∧
    ∀ transform ∈ shape.valueTransforms,
      boundedTransform transform.parameters = true

instance (shape : Shape α) : Decidable shape.CompositesBounded :=
  inferInstanceAs (Decidable (_ ∧ _))

end Shape

end SolidField
