import SolidField.Numeric.Single
import SolidField.Opcode

/-!
# Instructions

An instruction is four bytes, the opcode, the output register and two input
registers, followed by its parameter words with the low byte first.  A variadic
operation writes the number of its parameters as a word in front of them.
-/

namespace SolidField

/-- The bytes of a word, the low one first. -/
def wordBytes (word : UInt32) : List UInt8 :=
  [word.toUInt8, (word >>> 8).toUInt8, (word >>> 16).toUInt8, (word >>> 24).toUInt8]

/-- The word of four bytes, the low one first. -/
def bytesWord (a b c d : UInt8) : UInt32 :=
  a.toUInt32 ||| b.toUInt32 <<< 8 ||| c.toUInt32 <<< 16 ||| d.toUInt32 <<< 24

/-- The words of a byte string; what is left after the last whole one is dropped. -/
def bytesWords : List UInt8 → List UInt32
  | a :: b :: c :: d :: rest => bytesWord a b c d :: bytesWords rest
  | _ => []

/-- An operation with its registers and parameters. -/
structure Instruction where
  opcode : Opcode
  output : UInt8
  input1 : UInt8
  /-- The register of the second input, zero if there is none. -/
  input2 : UInt8
  parameters : List Single
deriving DecidableEq

namespace Instruction

/-- The instruction that ends a program with the value of a register. -/
def result (register : UInt8) : Instruction :=
  ⟨.halt, 0, register, 0, []⟩

/-- The four bytes in front of the parameters. -/
def header (instruction : Instruction) : List UInt8 :=
  [ instruction.opcode.code, instruction.output,
    instruction.input1, instruction.input2 ]

/-- The word that counts the parameters of a variadic operation. -/
def countBytes (instruction : Instruction) : List UInt8 :=
  match instruction.opcode.parameters with
  | .fixed _ => []
  | .variadic => wordBytes (UInt32.ofNat instruction.parameters.length)

/-- The bytes of an instruction. -/
def encode (instruction : Instruction) : List UInt8 :=
  instruction.header ++ instruction.countBytes ++
    instruction.parameters.flatMap fun parameter => wordBytes parameter.bits

/-- The number of bytes of an instruction. -/
def encodedLength (instruction : Instruction) : Nat :=
  let count :=
    match instruction.opcode.parameters with
    | .fixed _ => 0
    | .variadic => 1
  (1 + count + instruction.parameters.length) * 4

end Instruction

/-- The bytes of a sequence of instructions. -/
def encodeAll (instructions : List Instruction) : List UInt8 :=
  instructions.flatMap Instruction.encode

end SolidField
