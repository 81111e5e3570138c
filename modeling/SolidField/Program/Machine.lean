import SolidField.Kernel.Evaluate
import SolidField.Program.Basic

/-!
# The register machine

A machine is a decoded program.  It evaluates a point by running its steps over
a register file whose first register holds the point.  The register file is
passed on from point to point, so that it is allocated once.

Running is explicit about faults: a register that the file does not have, a
parameter that a kernel does not find, or a buffer for the distances of a lattice
that is too short or too long.
-/

namespace SolidField

/-- The content of a register. -/
abbrev Register := Vec4 Single

/-- Why a machine cannot go on. -/
inductive MachineFault where
  | missingRegister (index size : Nat)
  | missingParameter (opcode : Opcode) (count : Nat)
  | missingSample (index size : Nat)
  | capacityOverflow
deriving DecidableEq, Repr

namespace MachineFault

def message : MachineFault → String
  | missingRegister index size | missingSample index size =>
      "index out of bounds: the len is " ++ toString size ++
        " but the index is " ++ toString index
  | missingParameter _ count =>
      "index out of bounds: the len is " ++ toString count ++
        " but the index is " ++ toString count
  | capacityOverflow => "capacity overflow"

end MachineFault

/-- A step of a machine. -/
structure MachineStep where
  /-- The operation, which has a kernel. -/
  opcode : Opcode
  output : Nat
  input1 : Nat
  input2 : Nat
  parameters : List Single
deriving DecidableEq

/-- A program ready to run. -/
structure Machine where
  steps : List MachineStep
  registerCount : Nat
  result : Nat
deriving DecidableEq

/-- The registers of a running machine. -/
abbrev RegisterFile := Array Register

namespace RegisterFile

/-- The content of a register. -/
def read (registers : RegisterFile) (index : Nat) :
    Except MachineFault Register :=
  match registers[index]? with
  | some value => .ok value
  | none => .error (.missingRegister index registers.size)

/-- Replace the content of a register. -/
def write (registers : RegisterFile) (index : Nat) (value : Register) :
    Except MachineFault RegisterFile :=
  if index < registers.size then
    .ok (registers.setIfInBounds index value)
  else
    .error (.missingRegister index registers.size)

end RegisterFile

namespace MachineStep

/-- The step of an instruction. -/
def ofInstruction (instruction : Instruction) : MachineStep where
  opcode := instruction.opcode
  output := instruction.output.toNat
  input1 := instruction.input1.toNat
  input2 := instruction.input2.toNat
  parameters := instruction.parameters

/-- Run one step; both inputs are read, whether the kernel uses them or not. -/
def run (step : MachineStep) (registers : RegisterFile) :
    Except MachineFault RegisterFile := do
  let a ← registers.read step.input1
  let b ← registers.read step.input2
  match Kernel.evaluate? step.opcode step.parameters a b with
  | some value => registers.write step.output value
  | none =>
      .error (.missingParameter step.opcode step.parameters.length)

/-- Run a list of steps. -/
def runAll : List MachineStep → RegisterFile →
    Except MachineFault RegisterFile
  | [], registers => .ok registers
  | step :: steps, registers => do
      let registers ← step.run registers
      runAll steps registers

end MachineStep

namespace Machine

/-- The machine of a sequence of instructions, up to its result. -/
def ofInstructions (registerCount : Nat) : List Instruction → Machine
  | [] => ⟨[], registerCount, 0⟩
  | instruction :: rest =>
      if instruction.opcode = .halt then
        ⟨[], registerCount, instruction.input1.toNat⟩
      else
        let machine := ofInstructions registerCount rest
        { machine with
          steps := .ofInstruction instruction :: machine.steps }

/-- Decode a program. -/
def load (program : Program) : Except ProgramError Machine :=
  program.decode.map (ofInstructions program.registerCount)

/-- A register file of zeros. -/
def registerFile (machine : Machine) : RegisterFile :=
  Array.replicate machine.registerCount 0

/-- The value at a point, with the register file as it is left behind. -/
def evalWith (machine : Machine) (point : Vec3 Single)
    (registers : RegisterFile) :
    Except MachineFault (Register × RegisterFile) := do
  let registers ← registers.write 0 (Kernel.pointValue point)
  let registers ← MachineStep.runAll machine.steps registers
  let value ← registers.read machine.result
  pure (value, registers)

/-- The value at a point, from registers of zeros. -/
def eval (machine : Machine) (point : Vec3 Single) :
    Except MachineFault Register :=
  (machine.evalWith point machine.registerFile).map Prod.fst

/-- The distance at a point. -/
def distance (machine : Machine) (point : Vec3 Single) :
    Except MachineFault Single :=
  (machine.eval point).map Vec4.w

/--
Evaluate a list of points; the register file goes from point to point, and the
values are appended to those before.
-/
def evalAll (machine : Machine) :
    List (Vec3 Single) → RegisterFile → Array Register →
      Except MachineFault (Array Register × RegisterFile)
  | [], registers, values => .ok (values, registers)
  | point :: points, registers, values =>
      match machine.evalWith point registers with
      | .error fault => .error fault
      | .ok (value, registers) =>
          machine.evalAll points registers (values.push value)

/-- The values at a list of points, with one register file for all of them. -/
def evalBatch (machine : Machine) (points : List (Vec3 Single)) :
    Except MachineFault (List Register) :=
  (machine.evalAll points machine.registerFile #[]).map fun result =>
    result.1.toList

end Machine

end SolidField
