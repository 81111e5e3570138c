import SolidField.Geometry.Text
import SolidField.Program.Basic

/-!
# Listings

The readable form of a program, one instruction per line.
-/

namespace SolidField

def registerText (register : UInt8) : String :=
  "r" ++ toString register.toNat

namespace Instruction

def text (instruction : Instruction) : String :=
  let inputs :=
    match instruction.opcode.arity with
    | .unary => [instruction.input1]
    | _ => [instruction.input1, instruction.input2]
  if instruction.opcode = .halt then
    "return " ++ registerText instruction.input1
  else
    registerText instruction.output ++ " = " ++
      applied instruction.opcode.name (inputs.map registerText) ++ " " ++
      bracketed (instruction.parameters.map Single.detailedText)

end Instruction

namespace Program

/-- The lines of a program, if it decodes. -/
def listing (program : Program) : Except ProgramError String :=
  program.decode.map fun instructions =>
    String.join (instructions.map fun instruction => instruction.text ++ "\n")

end Program

end SolidField
