import SolidField.Kernel.Evaluate
import SolidField.Graph.Value
import SolidField.Shape.Lowering

/-!
# The distance field of a shape

The value of a shape at a point, computed along its tree without a graph.
Similarities that follow each other are composed before they act: a `Frame` is a
point with a similarity that has yet to move it, and a `Pending` value is a value
with a transform that has yet to act on it.

`Shape.plainFieldAt?` does not compose: every similarity moves the point and the
value on its own.
-/

universe u

namespace SolidField

/-- A point with a similarity that has yet to move it. -/
structure Frame (α : Type u) where
  /-- The point, as the content of a register. -/
  source : Vec4 α
  pending : Option (Similarity α)

namespace Frame

variable {α : Type u} [Scalar α]

/-- The frame of a point that nothing moves. -/
def ofPoint (source : Vec4 α) : Frame α :=
  ⟨source, none⟩

/-- The moved point. -/
def point (frame : Frame α) : Vec4 α :=
  match frame.pending with
  | some transform => Kernel.transformTo transform frame.source
  | none => frame.source

/-- Move the points of a frame by one more similarity. -/
def move (frame : Frame α) (toChild : Similarity α) : Frame α :=
  let merged :=
    match frame.pending with
    | some previous => toChild.after previous
    | none => toChild
  ⟨frame.source, if merged.isIdentity then none else some merged⟩

end Frame

/-- A value with a transform that has yet to act on it. -/
structure Pending (α : Type u) where
  source : Vec4 α
  pending : Option (ValueTransform α)

namespace Pending

variable {α : Type u} [Scalar α]

/-- A value that nothing acts on. -/
def ofValue (source : Vec4 α) : Pending α :=
  ⟨source, none⟩

/-- The transformed value. -/
def value (result : Pending α) : Vec4 α :=
  match result.pending with
  | some t => Kernel.transformFrom t.rotation t.scale result.source
  | none => result.source

/-- Let one more transform act on a value. -/
def move (result : Pending α) (toParent : ValueTransform α) : Pending α :=
  let merged :=
    match result.pending with
    | some inner => toParent.after inner
    | none => toParent
  ⟨result.source, if merged.isIdentity then none else some merged⟩

end Pending

namespace Shape

variable {α : Type u} [Scalar α]

/-- The value of a boolean of several values; a single one is its own. -/
def combined? (opcode : Opcode) (radius : α) :
    List (Pending α) → Option (Pending α)
  | [single] => some single
  | values =>
      (opcode.combine? [filletParameter radius] (values.map Pending.value)).map
        .ofValue

mutual

/-- The value of a shape in a frame, similarities being composed on the way. -/
def fieldIn? (frame : Frame α) : Shape α → Option (Pending α)
  | rectangle halfSize =>
      some (.ofValue (Kernel.rectangle halfSize frame.point.truncate))
  | circle radius => some (.ofValue (Kernel.circle radius frame.point.truncate))
  | polygon points => some (.ofValue (Kernel.polygon points frame.point.truncate))
  | sphere radius => some (.ofValue (Kernel.sphere radius frame.point.truncate))
  | box halfExtents =>
      some (.ofValue (Kernel.box halfExtents frame.point.truncate))
  | cylinder radius height =>
      some (.ofValue (Kernel.cylinder radius height frame.point.truncate))
  | extrusion profile height => do
      let profile ← fieldIn? frame profile
      pure (.ofValue (Kernel.extrusion height profile.value frame.point))
  | revolution profile => do
      let profile ← fieldIn? (.ofPoint (Kernel.revolutionTo frame.point)) profile
      pure (.ofValue (Kernel.revolutionFrom profile.value frame.point))
  | union shapes radius => do
      combined? .union radius (← allFieldsIn? frame shapes)
  | intersection shapes radius => do
      combined? .intersection radius (← allFieldsIn? frame shapes)
  | subtraction base tool radius => do
      let base ← fieldIn? frame base
      let tool ← fieldIn? frame tool
      pure
        (.ofValue
          (Kernel.roundSubtraction base.value tool.value (filletParameter radius)))
  | offset shape distance => do
      let child ← fieldIn? frame shape
      pure (.ofValue (Kernel.offset distance child.value))
  | shell shape thickness => do
      let child ← fieldIn? frame shape
      pure (.ofValue (Kernel.shell (thickness * Scalar.half) child.value))
  | transformed shape transform =>
      if transform.isValid then do
        let child ← fieldIn? (frame.move transform.inverse) shape
        pure (child.move (.ofSimilarity transform))
      else
        none

/-- The values of the shapes of a list in a frame. -/
def allFieldsIn? (frame : Frame α) :
    List (Shape α) → Option (List (Pending α))
  | [] => some []
  | shape :: shapes => do
      let value ← fieldIn? frame shape
      let values ← allFieldsIn? frame shapes
      pure (value :: values)

end

/-- The gradient and distance of a shape at a point. -/
def field? (shape : Shape α) (point : Vec3 α) : Option (Vec4 α) :=
  (shape.fieldIn? (.ofPoint (Kernel.pointValue point))).map Pending.value

/-- The value of a boolean of several plain values; a single one is its own. -/
def plainCombined? (opcode : Opcode) (radius : α) :
    List (Vec4 α) → Option (Vec4 α)
  | [single] => some single
  | values => opcode.combine? [filletParameter radius] values

mutual

/-- The value of a shape at a register content, every similarity on its own. -/
def plainFieldAt? (point : Vec4 α) : Shape α → Option (Vec4 α)
  | rectangle halfSize => some (Kernel.rectangle halfSize point.truncate)
  | circle radius => some (Kernel.circle radius point.truncate)
  | polygon points => some (Kernel.polygon points point.truncate)
  | sphere radius => some (Kernel.sphere radius point.truncate)
  | box halfExtents => some (Kernel.box halfExtents point.truncate)
  | cylinder radius height => some (Kernel.cylinder radius height point.truncate)
  | extrusion profile height => do
      let profile ← plainFieldAt? point profile
      pure (Kernel.extrusion height profile point)
  | revolution profile => do
      let profile ← plainFieldAt? (Kernel.revolutionTo point) profile
      pure (Kernel.revolutionFrom profile point)
  | union shapes radius => do
      plainCombined? .union radius (← allPlainFieldsAt? point shapes)
  | intersection shapes radius => do
      plainCombined? .intersection radius (← allPlainFieldsAt? point shapes)
  | subtraction base tool radius => do
      let base ← plainFieldAt? point base
      let tool ← plainFieldAt? point tool
      pure (Kernel.roundSubtraction base tool (filletParameter radius))
  | offset shape distance => do
      let child ← plainFieldAt? point shape
      pure (Kernel.offset distance child)
  | shell shape thickness => do
      let child ← plainFieldAt? point shape
      pure (Kernel.shell (thickness * Scalar.half) child)
  | transformed shape transform => do
      let child ← plainFieldAt? (Kernel.transformTo transform.inverse point) shape
      pure (Kernel.transformFrom transform.rotation transform.scale child)

/-- The values of the shapes of a list, every similarity on its own. -/
def allPlainFieldsAt? (point : Vec4 α) :
    List (Shape α) → Option (List (Vec4 α))
  | [] => some []
  | shape :: shapes => do
      let value ← plainFieldAt? point shape
      let values ← allPlainFieldsAt? point shapes
      pure (value :: values)

end

end Shape

end SolidField
