import SolidField.Kernel.Boolean
import SolidField.Kernel.Mapping
import SolidField.Kernel.Polygon
import SolidField.Kernel.Primitive
import SolidField.Opcode

/-!
# Kernels of the operations

`Kernel.evaluate?` runs the kernel of an operation on parameters and two registers.
It has no answer for a reserved operation and for parameters that are too few;
surplus parameters are ignored.
-/

universe u

namespace SolidField

namespace Kernel

variable {α : Type u} [Scalar α]

/-- The value of an operation, unless a parameter that it needs is missing. -/
def evaluate? (opcode : Opcode) (parameters : List α) (a b : Vec4 α) :
    Option (Vec4 α) :=
  match opcode, parameters with
  | .rectangle, x :: y :: _ => some (rectangle ⟨x, y⟩ a.truncate)
  | .circle, radius :: _ => some (circle radius a.truncate)
  | .polygon, coordinates => some (polygon (pairs coordinates) a.truncate)
  | .sphere, radius :: _ => some (sphere radius a.truncate)
  | .box, x :: y :: z :: _ => some (box ⟨x, y, z⟩ a.truncate)
  | .cylinder, radius :: height :: _ => some (cylinder radius height a.truncate)
  | .extrusion, height :: _ => some (extrusion height a b)
  | .revolutionTo, _ => some (revolutionTo a)
  | .revolutionFrom, _ => some (revolutionFrom a b)
  | .union, radius :: _ => some (roundUnion a b radius)
  | .intersection, radius :: _ => some (roundIntersection a b radius)
  | .subtraction, radius :: _ => some (roundSubtraction a b radius)
  | .offset, distance :: _ => some (offset distance a)
  | .shell, halfThickness :: _ => some (shell halfThickness a)
  | .transformTo, qx :: qy :: qz :: qw :: scale :: tx :: ty :: tz :: _ =>
      some (transformTo ⟨⟨qx, qy, qz, qw⟩, scale, ⟨tx, ty, tz⟩⟩ a)
  | .transformFrom, qx :: qy :: qz :: qw :: scale :: _ =>
      some (transformFrom ⟨qx, qy, qz, qw⟩ scale a)
  | _, _ => none

/-- An operation with a kernel has a value once its parameters fit its layout. -/
theorem exists_evaluate? {opcode : Opcode} {parameters : List α}
    (kernel : opcode.hasKernel = true)
    (accepted : opcode.parameters.accepts parameters.length = true)
    (a b : Vec4 α) : ∃ value, evaluate? opcode parameters a b = some value := by
  cases opcode <;>
    simp only [Opcode.hasKernel, Opcode.isReserved, Opcode.parameters,
      ParameterLayout.accepts, Bool.not_true, Bool.false_eq_true,
      decide_eq_true_eq] at kernel accepted
  all_goals
    rcases parameters with
      _ | ⟨_, _ | ⟨_, _ | ⟨_, _ | ⟨_, _ | ⟨_, _ | ⟨_, _ | ⟨_, _ | ⟨_, _⟩⟩⟩⟩⟩⟩⟩⟩ <;>
      first
      | exact ⟨_, rfl⟩
      | simp only [List.length_cons, List.length_nil] at accepted
        omega

/-- An operation that has no second input ignores the second register. -/
theorem evaluate?_ignores_second {opcode : Opcode}
    (unread : opcode.arity.readsSecond = false) (parameters : List α)
    (a b c : Vec4 α) :
    evaluate? opcode parameters a b = evaluate? opcode parameters a c := by
  cases opcode <;>
    simp only [Opcode.arity, Arity.readsSecond, Bool.true_eq_false] at unread <;>
    rcases parameters with
      _ | ⟨_, _ | ⟨_, _ | ⟨_, _ | ⟨_, _ | ⟨_, _ | ⟨_, _ | ⟨_, _ | ⟨_, _⟩⟩⟩⟩⟩⟩⟩⟩ <;>
    rfl

end Kernel

end SolidField
