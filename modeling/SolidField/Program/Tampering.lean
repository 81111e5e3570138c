import SolidField.Graph.Content
import SolidField.Program.Machine

/-!
# Runs with other gradients

A tampered run executes the steps of a machine, but behind every step that makes the
value of a shape the gradient in its register is replaced.  Points and distances stay
as they were computed.
-/

namespace SolidField

/-- The gradient that a tampered run leaves in place of a computed one. -/
abbrev Tampering := Register → Vec3 Single

/-- What a tampered run leaves of what an operation has made. -/
def Opcode.tamper (opcode : Opcode) (gradient : Tampering) (made : Register) :
    Register :=
  match opcode.content with
  | .point => made
  | .value => (gradient made).extend made.w

namespace MachineStep

/-- Run one step and replace the gradient that it has made. -/
def runTampered (gradient : Tampering) (step : MachineStep)
    (registers : RegisterFile) : Except MachineFault RegisterFile :=
  (step.run registers).map fun reached =>
    reached.modify step.output (step.opcode.tamper gradient)

/-- Run a list of steps, the gradients being replaced by position. -/
def runAllTampered (gradients : Nat → Tampering) :
    Nat → List MachineStep → RegisterFile → Except MachineFault RegisterFile
  | _, [], registers => .ok registers
  | position, step :: steps, registers => do
      let registers ← step.runTampered (gradients position) registers
      runAllTampered gradients (position + 1) steps registers

end MachineStep

/-- The value at a point in a tampered run, with the register file left behind. -/
def Machine.evalTampered (machine : Machine) (gradients : Nat → Tampering)
    (point : Vec3 Single) (registers : RegisterFile) :
    Except MachineFault (Register × RegisterFile) := do
  let registers ← registers.write 0 (Kernel.pointValue point)
  let registers ← MachineStep.runAllTampered gradients 0 machine.steps registers
  let value ← registers.read machine.result
  pure (value, registers)

/-! ## Runs that replace nothing -/

theorem Opcode.tamper_truncate (opcode : Opcode) :
    opcode.tamper Vec4.truncate = id := by
  funext made
  unfold tamper
  split <;> rfl

namespace MachineStep

theorem runTampered_truncate (step : MachineStep) (registers : RegisterFile) :
    step.runTampered Vec4.truncate registers = step.run registers := by
  rw [runTampered, Opcode.tamper_truncate]
  cases step.run registers with
  | error fault => rfl
  | ok reached =>
      have same : reached.modify step.output id = reached := by
        apply Array.ext <;> simp [Array.getElem_modify]
      rw [Except.map, same]

/-- A run that leaves every gradient as it is made is an ordinary run. -/
theorem runAllTampered_truncate (position : Nat) (steps : List MachineStep)
    (registers : RegisterFile) :
    runAllTampered (fun _ => Vec4.truncate) position steps registers =
      runAll steps registers := by
  induction steps generalizing position registers with
  | nil => rfl
  | cons step steps induction =>
      rw [runAllTampered, runAll, runTampered_truncate]
      cases step.run registers with
      | error fault => rfl
      | ok reached => exact induction (position + 1) reached

end MachineStep

/-- Evaluation is the tampered run that leaves every gradient as it is made. -/
theorem Machine.evalTampered_truncate (machine : Machine) (point : Vec3 Single)
    (registers : RegisterFile) :
    machine.evalTampered (fun _ => Vec4.truncate) point registers =
      machine.evalWith point registers := by
  simp only [evalTampered, evalWith, MachineStep.runAllTampered_truncate]

end SolidField
