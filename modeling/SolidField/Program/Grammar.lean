import SolidField.Program.Basic

/-!
# The grammar of programs

Which sequences of instructions are programs, said without the decoder: every
instruction fits the registers and its operation, and the only result instruction
is the last one.
-/

namespace SolidField

namespace Instruction

/-- An instruction fits a number of registers and its operation. -/
structure Fits (registerCount : Nat) (instruction : Instruction) : Prop where
  /-- The evaluation point is no instruction. -/
  isInstruction : instruction.opcode ≠ .point
  /-- The first input is a register. -/
  input1 : instruction.input1.toNat < registerCount
  /-- The output is a register, unless the instruction ends the program. -/
  output : instruction.opcode ≠ .halt → instruction.output.toNat < registerCount
  /-- The second input is a register, if the operation reads it. -/
  input2 : instruction.opcode.arity.readsSecond = true →
    instruction.input2.toNat < registerCount
  /-- The operation takes that many parameters. -/
  parameters :
    instruction.opcode.parameters.accepts instruction.parameters.length = true
  /-- The number of parameters fits a word. -/
  counted : instruction.parameters.length < UInt32.size

theorem fits_iff {registerCount : Nat} {instruction : Instruction} :
    instruction.Fits registerCount ↔
      instruction.opcode ≠ .point ∧
        instruction.input1.toNat < registerCount ∧
        (instruction.opcode ≠ .halt →
          instruction.output.toNat < registerCount) ∧
        (instruction.opcode.arity.readsSecond = true →
          instruction.input2.toNat < registerCount) ∧
        instruction.opcode.parameters.accepts instruction.parameters.length =
          true ∧
        instruction.parameters.length < UInt32.size := by
  constructor
  · rintro ⟨isInstruction, input1, output, input2, parameters, counted⟩
    exact ⟨isInstruction, input1, output, input2, parameters, counted⟩
  · rintro ⟨isInstruction, input1, output, input2, parameters, counted⟩
    exact ⟨isInstruction, input1, output, input2, parameters, counted⟩

instance (registerCount : Nat) (instruction : Instruction) :
    Decidable (instruction.Fits registerCount) :=
  decidable_of_iff _ fits_iff.symm

end Instruction

/-- A sequence of instructions is a program for a number of registers. -/
structure Wellformed (registerCount : Nat) (instructions : List Instruction) :
    Prop where
  /-- There is a register. -/
  positive : 0 < registerCount
  /-- A byte can address every register. -/
  addressable : registerCount ≤ maxRegisters
  /-- Every instruction fits. -/
  fits : ∀ instruction ∈ instructions, instruction.Fits registerCount
  /-- The last instruction, and no other one, names the result. -/
  endsWithResult : ∃ body last, instructions = body ++ [last] ∧
    last.opcode = .halt ∧ ∀ instruction ∈ body, instruction.opcode ≠ .halt

namespace Wellformed

variable {registerCount : Nat} {instructions : List Instruction}

theorem endsWithResult_iff :
    (∃ body last, instructions = body ++ [last] ∧ last.opcode = .halt ∧
        ∀ instruction ∈ body, instruction.opcode ≠ .halt) ↔
      instructions.getLast?.map Instruction.opcode = some .halt ∧
        ∀ instruction ∈ instructions.dropLast, instruction.opcode ≠ .halt := by
  constructor
  · rintro ⟨body, last, rfl, ending, before⟩
    simpa [ending] using before
  · rintro ⟨ending, before⟩
    rcases Option.map_eq_some_iff.mp ending with ⟨last, found, isResult⟩
    rcases List.getLast?_eq_some_iff.mp found with ⟨body, rfl⟩
    exact ⟨body, last, rfl, isResult, by simpa using before⟩

theorem iff_checks :
    Wellformed registerCount instructions ↔
      0 < registerCount ∧ registerCount ≤ maxRegisters ∧
        (∀ instruction ∈ instructions, instruction.Fits registerCount) ∧
        instructions.getLast?.map Instruction.opcode = some .halt ∧
        ∀ instruction ∈ instructions.dropLast, instruction.opcode ≠ .halt := by
  rw [← endsWithResult_iff]
  constructor
  · rintro ⟨positive, addressable, fits, endsWithResult⟩
    exact ⟨positive, addressable, fits, endsWithResult⟩
  · rintro ⟨positive, addressable, fits, endsWithResult⟩
    exact ⟨positive, addressable, fits, endsWithResult⟩

instance : Decidable (Wellformed registerCount instructions) :=
  decidable_of_iff _ iff_checks.symm

end Wellformed

end SolidField
