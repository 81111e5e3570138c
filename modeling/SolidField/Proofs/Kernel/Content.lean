import SolidField.Graph.Content
import SolidField.Kernel.Evaluate

/-!
# What kernels make of contents

The distance that a kernel makes depends on the points and the distances that it
reads, never on a gradient; a point that a kernel makes depends on points only.
-/

universe u

namespace SolidField

variable {α : Type u}

namespace Content

theorem Matches.refl (content : Content) (a : Vec4 α) : content.Matches a a := by
  cases content <;> rfl

/-- Registers that agree on what they hold agree on the distance. -/
theorem Matches.w_eq {content : Content} {a b : Vec4 α}
    (alike : content.Matches a b) : a.w = b.w := by
  cases content with
  | point => exact congrArg Vec4.w alike
  | value => exact alike

end Content

namespace Kernel

variable [Scalar α]

/-! ## Distances of operations -/

/-- The distance of a union, from the distances of its operands. -/
def unionDistance (a b radius : α) : α :=
  let sharp := if Scalar.atMost a b then a else b
  if Scalar.atMost radius 0 then
    sharp
  else
    let length := (⟨radius - a, radius - b⟩ : Vec2 α).positivePart.length
    if Scalar.equal length 0 then sharp else Scalar.max radius sharp - length

/-- The distance of an extrusion, from that of the profile and the third axis. -/
def extrusionDistance (height profile z : α) : α :=
  let slab := Scalar.abs z - height * Scalar.half
  let length := (⟨profile, slab⟩ : Vec2 α).positivePart.length
  if Scalar.less 0 length then length
  else if Scalar.less slab profile then profile
  else slab

theorem w_sharpUnion (a b : Vec4 α) :
    (sharpUnion a b).w = if Scalar.atMost a.w b.w then a.w else b.w := by
  unfold sharpUnion
  split <;> rfl

theorem w_roundUnion (a b : Vec4 α) (radius : α) :
    (roundUnion a b radius).w = unionDistance a.w b.w radius := by
  simp only [roundUnion, unionDistance, ← w_sharpUnion]
  split
  · rfl
  · split <;> rfl

theorem w_roundIntersection (a b : Vec4 α) (radius : α) :
    (roundIntersection a b radius).w = -(unionDistance (-a.w) (-b.w) radius) :=
  congrArg (-·) (w_roundUnion (-a) (-b) radius)

theorem w_extrusion (height : α) (profile point : Vec4 α) :
    (extrusion height profile point).w =
      extrusionDistance height profile.w point.z := by
  simp only [extrusion, extrusionDistance]
  split
  · rfl
  · split <;> rfl

/-! ## Contents -/

/-- A kernel makes the same of registers that agree on what it reads of them. -/
theorem exists_evaluate?_matches {opcode : Opcode} {parameters : List α}
    {a b c d value : Vec4 α} (first : opcode.firstInput.Matches a c)
    (second : opcode.arity.readsSecond = true → opcode.otherInput.Matches b d)
    (computed : evaluate? opcode parameters a b = some value) :
    ∃ other, evaluate? opcode parameters c d = some other ∧
      opcode.content.Matches value other := by
  unfold evaluate? at computed
  split at computed <;> cases computed
  -- Primitives and the operations on points read the whole point.
  case h_1 | h_2 | h_3 | h_4 | h_5 | h_6 | h_8 | h_15 =>
    obtain rfl : a = c := first
    exact ⟨_, rfl, Content.Matches.refl _ _⟩
  case h_7 =>
    obtain rfl : b = d := second rfl
    refine ⟨_, rfl, ?_⟩
    show (extrusion _ a b).w = (extrusion _ c b).w
    rw [w_extrusion, w_extrusion, first.w_eq]
  case h_9 => exact ⟨_, rfl, first⟩
  case h_10 =>
    refine ⟨_, rfl, ?_⟩
    show (roundUnion a b _).w = (roundUnion c d _).w
    rw [w_roundUnion, w_roundUnion, first.w_eq, (second rfl).w_eq]
  case h_11 =>
    refine ⟨_, rfl, ?_⟩
    show (roundIntersection a b _).w = (roundIntersection c d _).w
    rw [w_roundIntersection, w_roundIntersection, first.w_eq, (second rfl).w_eq]
  case h_12 =>
    refine ⟨_, rfl, ?_⟩
    show (roundIntersection a (-b) _).w = (roundIntersection c (-d) _).w
    have negated : (-b).w = (-d).w := congrArg (-·) (second rfl).w_eq
    rw [w_roundIntersection, w_roundIntersection, first.w_eq, negated]
  case h_13 => exact ⟨_, rfl, congrArg (· - _) first.w_eq⟩
  case h_14 =>
    exact ⟨_, rfl, congrArg (fun distance => Scalar.abs distance - _) first.w_eq⟩
  case h_16 => exact ⟨_, rfl, congrArg (· * _) first.w_eq⟩

end Kernel

end SolidField
