import SolidField.Program.Machine
import SolidField.Proofs.Program.Decoding

/-!
# Running decoded programs

A program that decodes is loaded into a machine whose steps are its instructions
before the result.  Every step of such a machine finds its first input, its output
and its parameters.  It reads its second input even if the operation has none, and
the decoder leaves that field of a unary instruction unchecked: a run is without
fault exactly when all these fields lie within the register file.
-/

namespace SolidField

/-! ## Registers -/

namespace RegisterFile

variable {registers : RegisterFile} {index : Nat}

theorem read_eq_ok_iff {value : Register} :
    registers.read index = .ok value ↔ registers[index]? = some value := by
  unfold read
  split
  · next content => simp [content]
  · next missing => simp [missing]

theorem read_of_lt (inside : index < registers.size) :
    registers.read index = .ok registers[index] :=
  read_eq_ok_iff.mpr (Array.getElem?_eq_getElem inside)

theorem read_of_le (outside : registers.size ≤ index) :
    registers.read index = .error (.missingRegister index registers.size) := by
  simp [read, outside]

theorem write_of_lt (value : Register) (inside : index < registers.size) :
    registers.write index value =
      .ok (registers.setIfInBounds index value) := by
  simp [write, inside]

end RegisterFile

/-! ## Steps -/

namespace MachineStep

theorem run_eq_ok {step : MachineStep} {registers : RegisterFile}
    {a b value : Register}
    (first : registers.read step.input1 = .ok a)
    (second : registers.read step.input2 = .ok b)
    (computed :
      Kernel.evaluate? step.opcode step.parameters a b = some value)
    (target : step.output < registers.size) :
    step.run registers =
      .ok (registers.setIfInBounds step.output value) := by
  simp only [run, first, second, computed, bind, Except.bind,
    RegisterFile.write_of_lt value target]

theorem runAll_cons_error {step : MachineStep} {steps : List MachineStep}
    {registers : RegisterFile} {fault : MachineFault}
    (failed : step.run registers = .error fault) :
    runAll (step :: steps) registers = .error fault := by
  simp only [runAll, failed, bind, Except.bind]

theorem runAll_cons_ok {step : MachineStep} {steps : List MachineStep}
    {registers reached : RegisterFile}
    (succeeded : step.run registers = .ok reached) :
    runAll (step :: steps) registers = runAll steps reached := by
  simp only [runAll, succeeded, bind, Except.bind]

variable {registerCount : Nat} {instruction : Instruction}
  {registers : RegisterFile}

theorem exists_evaluate?_of_fits (fits : instruction.Fits registerCount)
    (going : instruction.opcode ≠ .halt) (a b : Register) :
    ∃ value,
      Kernel.evaluate? instruction.opcode instruction.parameters a b =
        some value := by
  refine Kernel.exists_evaluate? ?_ fits.parameters a b
  have notPoint := fits.isInstruction
  cases opcode : instruction.opcode <;>
    simp_all [Opcode.hasKernel, Opcode.isReserved]

/-- A fitting instruction runs if its second field is a register. -/
theorem run_ofInstruction_ok (fits : instruction.Fits registerCount)
    (going : instruction.opcode ≠ .halt)
    (inside : instruction.input2.toNat < registerCount)
    (size : registers.size = registerCount) :
    ∃ left, (ofInstruction instruction).run registers = .ok left ∧
      left.size = registerCount := by
  subst size
  have first := fits.input1
  rcases
      exists_evaluate?_of_fits fits going registers[instruction.input1.toNat]
        registers[instruction.input2.toNat] with
    ⟨value, computed⟩
  exact ⟨_,
    run_eq_ok (RegisterFile.read_of_lt first)
      (RegisterFile.read_of_lt inside) computed (fits.output going),
    by simp⟩

/-- A fitting instruction faults at its second field otherwise. -/
theorem run_ofInstruction_error (fits : instruction.Fits registerCount)
    (outside : registerCount ≤ instruction.input2.toNat)
    (size : registers.size = registerCount) :
    (ofInstruction instruction).run registers =
      .error (.missingRegister instruction.input2.toNat registerCount) := by
  subst size
  have first : registers.read (ofInstruction instruction).input1 = .ok _ :=
    RegisterFile.read_of_lt fits.input1
  have second : registers.read (ofInstruction instruction).input2 = .error _ :=
    RegisterFile.read_of_le outside
  simp only [run, first, second, bind, Except.bind]
  rfl

/-- Fitting instructions run if all second fields are registers. -/
theorem runAll_ok {body : List Instruction}
    (fits : ∀ instruction ∈ body, instruction.Fits registerCount)
    (going : ∀ instruction ∈ body, instruction.opcode ≠ .halt)
    (inside : ∀ instruction ∈ body, instruction.input2.toNat < registerCount)
    (size : registers.size = registerCount) :
    ∃ left, runAll (body.map ofInstruction) registers = .ok left ∧
      left.size = registerCount := by
  induction body generalizing registers with
  | nil => exact ⟨registers, rfl, size⟩
  | cons instruction body induction =>
      rw [List.forall_mem_cons] at fits going inside
      rcases run_ofInstruction_ok fits.1 going.1 inside.1 size with
        ⟨reached, ran, kept⟩
      rw [List.map_cons, runAll_cons_ok ran]
      exact induction fits.2 going.2 inside.2 kept

/-- Fitting instructions fault at one whose second field is no register. -/
theorem runAll_error {body : List Instruction}
    (fits : ∀ instruction ∈ body, instruction.Fits registerCount)
    (going : ∀ instruction ∈ body, instruction.opcode ≠ .halt)
    (outside :
      ∃ instruction ∈ body, registerCount ≤ instruction.input2.toNat)
    (size : registers.size = registerCount) :
    ∃ instruction ∈ body, registerCount ≤ instruction.input2.toNat ∧
      runAll (body.map ofInstruction) registers =
        .error (.missingRegister instruction.input2.toNat registerCount) := by
  induction body generalizing registers with
  | nil => simp at outside
  | cons instruction body induction =>
      rw [List.forall_mem_cons] at fits going
      -- The culprit is the first such instruction; those before it run.
      by_cases inside : instruction.input2.toNat < registerCount
      · rcases run_ofInstruction_ok fits.1 going.1 inside size with
          ⟨reached, ran, kept⟩
        simp only [List.mem_cons, exists_eq_or_imp] at outside
        rcases
            induction fits.2 going.2 (outside.resolve_left (by omega)) kept with
          ⟨culprit, member, beyond, faulted⟩
        refine ⟨culprit, List.mem_cons_of_mem _ member, beyond, ?_⟩
        rw [List.map_cons, runAll_cons_ok ran, faulted]
      · refine ⟨instruction, List.mem_cons_self, by omega, ?_⟩
        rw [List.map_cons]
        exact runAll_cons_error
          (run_ofInstruction_error fits.1 (by omega) size)

end MachineStep

/-! ## Machines -/

namespace Machine

variable {registerCount : Nat}

/-- The machine of a sequence that ends with its only result. -/
theorem ofInstructions_append {body : List Instruction} {last : Instruction}
    (ending : last.opcode = .halt)
    (before : ∀ instruction ∈ body, instruction.opcode ≠ .halt) :
    ofInstructions registerCount (body ++ [last]) =
      ⟨body.map MachineStep.ofInstruction, registerCount,
        last.input1.toNat⟩ := by
  induction body with
  | nil => simp [ofInstructions, ending]
  | cons instruction body induction =>
      rw [List.forall_mem_cons] at before
      simp [ofInstructions, before.1, induction before.2]

theorem load_of_decode {program : Program} {instructions : List Instruction}
    (decoded : program.decode = .ok instructions) :
    load program = .ok (ofInstructions program.registerCount instructions) := by
  simp only [load, decoded, Except.map]

/-- An evaluation whose steps run returns the register of the result. -/
theorem evalWith_eq_ok {machine : Machine} {point : Vec3 Single}
    {registers left : RegisterFile} {value : Register}
    (positive : 0 < registers.size)
    (ran :
      MachineStep.runAll machine.steps
          (registers.setIfInBounds 0 (Kernel.pointValue point)) =
        .ok left)
    (found : left.read machine.result = .ok value) :
    machine.evalWith point registers = .ok (value, left) := by
  simp only [evalWith, RegisterFile.write_of_lt _ positive, ran, found, bind,
    Except.bind, pure, Except.pure]

/-- An evaluation faults where its steps fault. -/
theorem evalWith_eq_error {machine : Machine} {point : Vec3 Single}
    {registers : RegisterFile} {fault : MachineFault}
    (positive : 0 < registers.size)
    (failed :
      MachineStep.runAll machine.steps
          (registers.setIfInBounds 0 (Kernel.pointValue point)) =
        .error fault) :
    machine.evalWith point registers = .error fault := by
  simp only [evalWith, RegisterFile.write_of_lt _ positive, failed, bind,
    Except.bind]

variable {body : List Instruction} {last : Instruction}

/--
A program evaluates if the second fields of all its steps are registers, whatever
is in the register file.
-/
theorem exists_evalWith_of_inside
    (fits : ∀ instruction ∈ body ++ [last], instruction.Fits registerCount)
    (ending : last.opcode = .halt)
    (before : ∀ instruction ∈ body, instruction.opcode ≠ .halt)
    (inside : ∀ instruction ∈ body, instruction.input2.toNat < registerCount)
    (point : Vec3 Single) {registers : RegisterFile}
    (size : registers.size = registerCount) :
    ∃ value left,
      (ofInstructions registerCount (body ++ [last])).evalWith point registers =
          .ok (value, left) ∧
        left.size = registerCount := by
  rw [List.forall_mem_append, List.forall_mem_singleton] at fits
  have result := fits.2.input1
  obtain ⟨left, ran, kept⟩ :=
    MachineStep.runAll_ok fits.1 before inside
      (show (registers.setIfInBounds 0 (Kernel.pointValue point)).size =
        registerCount by simpa using size)
  have found : left.read last.input1.toNat = .ok _ :=
    RegisterFile.read_of_lt (by omega)
  rw [ofInstructions_append ending before]
  exact ⟨_, left, evalWith_eq_ok (by omega) ran found, kept⟩

/-- A program evaluates if the second fields of all its steps are registers. -/
theorem exists_eval_of_inside
    (fits : ∀ instruction ∈ body ++ [last], instruction.Fits registerCount)
    (ending : last.opcode = .halt)
    (before : ∀ instruction ∈ body, instruction.opcode ≠ .halt)
    (inside : ∀ instruction ∈ body, instruction.input2.toNat < registerCount)
    (point : Vec3 Single) :
    ∃ value,
      (ofInstructions registerCount (body ++ [last])).eval point = .ok value := by
  have size :
      (ofInstructions registerCount (body ++ [last])).registerFile.size =
        registerCount := by
    rw [ofInstructions_append ending before, registerFile, Array.size_replicate]
  rcases exists_evalWith_of_inside fits ending before inside point size with
    ⟨value, left, evaluated, -⟩
  rw [eval, evaluated]
  exact ⟨value, rfl⟩

/-- A program faults at a step whose second field is no register. -/
theorem eval_error_of_outside
    (fits : ∀ instruction ∈ body ++ [last], instruction.Fits registerCount)
    (ending : last.opcode = .halt)
    (before : ∀ instruction ∈ body, instruction.opcode ≠ .halt)
    (outside :
      ∃ instruction ∈ body, registerCount ≤ instruction.input2.toNat)
    (point : Vec3 Single) :
    ∃ instruction ∈ body, registerCount ≤ instruction.input2.toNat ∧
      (ofInstructions registerCount (body ++ [last])).eval point =
        .error (.missingRegister instruction.input2.toNat registerCount) := by
  rw [List.forall_mem_append, List.forall_mem_singleton] at fits
  have result := fits.2.input1
  obtain ⟨culprit, member, beyond, failed⟩ :=
    MachineStep.runAll_error fits.1 before outside
      (show ((Array.replicate registerCount 0).setIfInBounds 0
        (Kernel.pointValue point)).size = registerCount by simp)
  refine ⟨culprit, member, beyond, ?_⟩
  rw [ofInstructions_append ending before, eval,
    evalWith_eq_error (by simp [registerFile]; omega) failed]
  rfl

end Machine

/-- Only a unary instruction may name a second input that is no register. -/
theorem Instruction.Fits.arity_eq_unary {registerCount : Nat}
    {instruction : Instruction} (fits : instruction.Fits registerCount)
    (outside : registerCount ≤ instruction.input2.toNat) :
    instruction.opcode.arity = .unary := by
  have unread : instruction.opcode.arity.readsSecond ≠ true := by
    intro reads
    exact absurd (fits.input2 reads) (by omega)
  have notPoint := fits.isInstruction
  cases opcode : instruction.opcode <;>
    simp_all [Opcode.arity, Arity.readsSecond]

namespace Program

theorem decode_of_ofBytes {registerCount : Nat} {bytecode : List UInt8}
    {program : Program}
    (accepted : ofBytes registerCount bytecode = .ok program) :
    program = ⟨registerCount, bytecode⟩ ∧
      ∃ instructions, program.decode = .ok instructions := by
  cases decoded : decode ⟨registerCount, bytecode⟩ with
  | error error =>
      simp [ofBytes, bind, Except.bind, decoded] at accepted
  | ok instructions =>
      simp only [ofBytes, bind, Except.bind, decoded, pure, Except.pure,
        Except.ok.injEq] at accepted
      subst program
      exact ⟨rfl, instructions, decoded⟩

theorem ofBytes_encodeAll {registerCount : Nat}
    {instructions : List Instruction}
    (wellformed : Wellformed registerCount instructions) :
    ofBytes registerCount (encodeAll instructions) =
      .ok ⟨registerCount, encodeAll instructions⟩ := by
  simp only [ofBytes, bind, Except.bind, decode_encodeAll wellformed, pure,
    Except.pure]

/--
A program that is accepted is always loaded, and its evaluation can fault in one
way only: a unary instruction names a register beyond the register file as the
second input that its operation does not have.  Without such an instruction every
evaluation has a value, and with one no evaluation has.
-/
theorem eval_ok_iff_second_inputs_inside {registerCount : Nat}
    {bytecode : List UInt8} {program : Program}
    (accepted : ofBytes registerCount bytecode = .ok program) :
    ∃ instructions machine,
      program.decode = .ok instructions ∧
        Machine.load program = .ok machine ∧
        ∀ point,
          ((∃ value, machine.eval point = .ok value) ↔
            ∀ instruction ∈ instructions, instruction.opcode ≠ .halt →
              instruction.input2.toNat < registerCount) ∧
          ∀ fault, machine.eval point = .error fault →
            ∃ instruction ∈ instructions,
              instruction.opcode ≠ .halt ∧
                instruction.opcode.arity = .unary ∧
                registerCount ≤ instruction.input2.toNat ∧
                fault =
                  .missingRegister instruction.input2.toNat registerCount := by
  rcases decode_of_ofBytes accepted with ⟨rfl, instructions, decoded⟩
  rcases wellformed_of_decode decoded with
    ⟨⟨-, -, fits, body, last, rfl, ending, before⟩, -⟩
  refine ⟨_, _, decoded, Machine.load_of_decode decoded, fun point => ?_⟩
  by_cases outside :
      ∃ instruction ∈ body, registerCount ≤ instruction.input2.toNat
  · rcases Machine.eval_error_of_outside fits ending before outside point with
      ⟨culprit, member, beyond, failed⟩
    have inProgram : culprit ∈ body ++ [last] :=
      List.mem_append_left [last] member
    rw [failed]
    constructor
    · constructor
      · rintro ⟨value, impossible⟩
        cases impossible
      · intro inside
        have := inside culprit inProgram (before culprit member)
        omega
    · rintro fault ⟨⟩
      exact ⟨culprit, inProgram, before culprit member,
        (fits culprit inProgram).arity_eq_unary beyond, beyond, rfl⟩
  · have inside :
        ∀ instruction ∈ body, instruction.input2.toNat < registerCount :=
      fun instruction member =>
        Nat.lt_of_not_le fun beyond => outside ⟨instruction, member, beyond⟩
    rcases Machine.exists_eval_of_inside fits ending before inside point with
      ⟨value, evaluated⟩
    rw [evaluated]
    constructor
    · refine ⟨fun _ => ?_, fun _ => ⟨value, rfl⟩⟩
      rw [List.forall_mem_append, List.forall_mem_singleton]
      exact ⟨fun instruction member _ => inside instruction member,
        fun going => absurd ending going⟩
    · rintro fault ⟨⟩

/-- A sphere that names register five as a second input, for one register. -/
def strayInput : List Instruction :=
  [⟨.sphere, 0, 0, 5, [1]⟩, .result 0]

/-- The decoder does not look at the second input of a sphere. -/
theorem wellformed_strayInput : Wellformed 1 strayInput := by
  decide

/-- No point has a value under a sphere with a stray second input. -/
theorem strayInput_has_no_value :
    ofBytes 1 (encodeAll strayInput) = .ok ⟨1, encodeAll strayInput⟩ ∧
      ∃ machine, Machine.load ⟨1, encodeAll strayInput⟩ = .ok machine ∧
        ∀ point, ¬∃ value, machine.eval point = .ok value := by
  have accepted := ofBytes_encodeAll wellformed_strayInput
  rcases eval_ok_iff_second_inputs_inside accepted with
    ⟨instructions, machine, decoded, loaded, evaluates⟩
  rw [decode_encodeAll wellformed_strayInput] at decoded
  cases decoded
  refine ⟨accepted, machine, loaded, fun point evaluated => ?_⟩
  have inside := (evaluates point).1.mp evaluated ⟨.sphere, 0, 0, 5, [1]⟩
  exact absurd (inside (by simp [strayInput]) (by decide)) (by decide)

/-- An accepted program whose evaluation indexes a register that is not there. -/
theorem accepted_program_faults :
    ofBytes 1 [5, 0, 0, 5, 0, 0, 0x80, 0x3f, 0, 0, 0, 0] =
        .ok ⟨1, [5, 0, 0, 5, 0, 0, 0x80, 0x3f, 0, 0, 0, 0]⟩ ∧
      ∃ machine,
        Machine.load ⟨1, [5, 0, 0, 5, 0, 0, 0x80, 0x3f, 0, 0, 0, 0]⟩ =
            .ok machine ∧
          machine.eval 0 = .error (.missingRegister 5 1) := by
  have encoded :
      encodeAll strayInput = [5, 0, 0, 5, 0, 0, 0x80, 0x3f, 0, 0, 0, 0] := by
    decide
  have accepted := ofBytes_encodeAll wellformed_strayInput
  have loaded := Machine.load_of_decode (decode_encodeAll wellformed_strayInput)
  rw [encoded] at accepted loaded
  exact ⟨accepted, _, loaded, rfl⟩

end Program

end SolidField
