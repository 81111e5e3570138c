import Mathlib.Data.List.Forall2
import SolidField.Program.Basic
import SolidField.Program.Shader

/-!
# Walking the words of a program

The loop of the shader as a function on the words of a program.  It takes a header
word apart by the fields, looks for the case of the operation, and computes the
positions of the parameters and of the next header from the very expressions that
are written into the source.

How a sum of positions is stored is a parameter.  On a device it is a word of 32
bits; `Program.walk` is the walk without that limit.
-/

namespace SolidField

namespace Shader

/-- The field of a header word, by a shift and a mask. -/
def HeaderField.value (field : HeaderField) (word : UInt32) : UInt32 :=
  word >>> UInt32.ofNat field.shift &&& 0xff

/-- The position that an expression stands for; every sum is stored. -/
def Address.value (store : Nat → Nat) (pc : Nat) (parameters : UInt32) :
    Address → Nat
  | counter => pc
  | count => parameters.toNat
  | constant words => words
  | plus first second =>
      store (first.value store pc parameters + second.value store pc parameters)

/-- The operation whose constant is a code, with what its case does. -/
def caseOf? (code : UInt32) : Option (Opcode × Action) :=
  Opcode.all.findSome? fun opcode =>
    if opcode.code.toUInt32 = code then
      (Action.ofOpcode? opcode).map fun action => (opcode, action)
    else
      none

end Shader

/-- What the loop hands to an operation. -/
structure WalkStep where
  opcode : Opcode
  output : UInt32
  input1 : UInt32
  input2 : UInt32
  /-- The position of the first parameter word. -/
  parametersAt : Nat
  /-- The number of parameters, if the operation is variadic. -/
  count : Option UInt32
deriving DecidableEq

/-- How a walk ends. -/
inductive WalkEnd where
  /-- With the value of a register; the position is that of the header. -/
  | result (register : UInt32) (position : Nat)
  /-- At a header whose code has no case. -/
  | noCase (code : UInt32) (position : Nat)
  /-- At a position without a word. -/
  | outside (position : Nat)
  /-- After the greatest number of steps. -/
  | unfinished (position : Nat)
deriving DecidableEq

namespace WalkEnd

def position : WalkEnd → Nat
  | result _ position => position
  | noCase _ position => position
  | outside position => position
  | unfinished position => position

end WalkEnd

namespace Program

open Shader

/--
One round of the loop at the position of a header: what is handed to the operation
and the position of the next header, unless the walk ends here.
-/
def walkStep (store : Nat → Nat) (words : List UInt32) (position : Nat) :
    Except WalkEnd (WalkStep × Nat) :=
  match words[position]? with
  | none => .error (.outside position)
  | some word =>
      let field (field : HeaderField) := field.value word
      let pc := Address.following.value store position 0
      match caseOf? (field .opcode) with
      | none => .error (.noCase (field .opcode) position)
      | some (_, .finish) => .error (.result (field .input1) position)
      | some (opcode, .apply parametersAt counted next) =>
          let step (count : Option UInt32) :=
            let value (address : Address) := address.value store pc (count.getD 0)
            (⟨opcode, field .output, field .input1, field .input2,
              value parametersAt, count⟩, value next)
          if counted then
            match words[pc]? with
            | none => .error (.outside pc)
            | some count => .ok (step (some count))
          else
            .ok (step none)

/-- Walk the words from the position of a header on, in a number of rounds at most. -/
def walkFrom (store : Nat → Nat) (words : List UInt32) :
    Nat → Nat → List WalkStep × WalkEnd
  | 0, position => ([], .unfinished position)
  | bound + 1, position =>
      match walkStep store words position with
      | .error finish => ([], finish)
      | .ok (step, next) =>
          let (steps, finish) := walkFrom store words bound next
          (step :: steps, finish)

/-- Walk the words of a program; every instruction has a word of its own. -/
def walkWith (store : Nat → Nat) (program : Program) : List WalkStep × WalkEnd :=
  walkFrom store program.words program.words.length 0

/-- The walk with positions of any size. -/
def walk (program : Program) : List WalkStep × WalkEnd :=
  program.walkWith id

/-- The walk of a device, on which a position is a word. -/
def deviceWalk (program : Program) : List WalkStep × WalkEnd :=
  program.walkWith (· % UInt32.size)

end Program

/-- The loop hands to an operation what an instruction says. -/
structure WalkStep.Applies (words : List UInt32) (step : WalkStep)
    (instruction : Instruction) : Prop where
  opcode : step.opcode = instruction.opcode
  output : step.output = instruction.output.toUInt32
  input1 : step.input1 = instruction.input1.toUInt32
  input2 : step.input2 = instruction.input2.toUInt32
  /-- The parameter words stand where the operation looks for them. -/
  parameters :
    (words.drop step.parametersAt).take instruction.parameters.length =
      instruction.parameters.map Single.bits
  /-- The operation is told the number of its parameters if it may vary. -/
  count : step.count.map UInt32.toNat =
    if instruction.opcode.parameters = .variadic then
      some instruction.parameters.length
    else
      none

/--
A walk applies the instructions of a program in their order up to the result, whose
header is the last word.
-/
structure Program.Traversed (program : Program) (instructions : List Instruction)
    (walk : List WalkStep × WalkEnd) : Prop where
  steps : List.Forall₂ (WalkStep.Applies program.words) walk.1 instructions.dropLast
  finish : ∃ last position, instructions.getLast? = some last ∧
    last.opcode = .halt ∧ position + 1 = program.words.length ∧
      walk.2 = .result last.input1.toUInt32 position

end SolidField
